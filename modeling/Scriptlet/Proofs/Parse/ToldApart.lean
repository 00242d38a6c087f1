import Scriptlet.Proofs.Node.Listed
import Scriptlet.Proofs.Parse.Holes
import Scriptlet.Proofs.Value.Literal

/-!
# Programs told apart by their listings

`Node.listed` is the listing of a node before it is written down, and `Node.listing` is its text. The text can be
read in one way only, so nodes with the same listing have the same `Node.listed`. This shows the kind of a node and
all its fields, and the children from the root downward. The one thing that a listing does not show is that a token
is missing, and a program that has been read misses none.
-/

namespace Scriptlet

/-! ### The trees of listings -/

theorem isDigit_of_mem_toString {n : Nat} {c : Char} (h : c ∈ (toString n).toList) : isDigit c = true := by
  rw [toList_toString] at h
  exact isDigit_of_mem_toDigits h

namespace Word

theorem isWord_toString (value : Int) : Text.isWord (toString value) = true := by
  have hdigits : ∀ n : Nat, ∀ c ∈ (toString n).toList, Text.isWordChar c = true := by
    intro n c hc
    simp [Text.isWordChar, isDigit_of_mem_toString hc]
  rw [Text.isWord, Bool.and_eq_true, decide_eq_true_iff, List.all_eq_true]
  cases value with
  | ofNat n => exact ⟨Nat.repr_ne_empty, hdigits n⟩
  | negSucc n =>
    rw [← String.toList_inj.ne, toList_toString_negSucc]
    exact ⟨List.cons_ne_nil _ _, List.forall_mem_cons.2 ⟨rfl, hdigits (n + 1)⟩⟩

def ofInt (value : Int) : Word := ⟨toString value, isWord_toString value⟩

theorem isWord_truth (value : Bool) : Text.isWord (Text.truth value) = true := by
  cases value <;> decide

def ofBool (value : Bool) : Word := ⟨Text.truth value, isWord_truth value⟩

def none : Word := ⟨"None", by decide⟩

end Word

/-- The kinds of records. -/
inductive RecordKind
  | node
  | statement
  | expression
  | token
  | identifier
  | program
  | integerLiteral
  | boolean
  | stringLiteral
  | prefixExpression
  | infixExpression
  | blockStatement
  | ifExpression
  | functionLiteral
  | callExpression
  | arrayLiteral
  | indexExpression
  | letStatement
  | returnStatement
  | expressionStatement

/-- The fields of records. -/
inductive FieldName
  | type
  | literal
  | token
  | value
  | name
  | operator
  | left
  | right
  | condition
  | consequence
  | alternative
  | parameters
  | body
  | function
  | arguments
  | elements
  | index
  | expression
  | statements

namespace RecordKind

@[simp] def text : RecordKind → String
  | .node => "Node"
  | .statement => "Statement"
  | .expression => "Expression"
  | .token => "Token"
  | .identifier => "Identifier"
  | .program => "Program"
  | .integerLiteral => "IntegerLiteral"
  | .boolean => "Boolean"
  | .stringLiteral => "StringLiteral"
  | .prefixExpression => "PrefixExpression"
  | .infixExpression => "InfixExpression"
  | .blockStatement => "BlockStatement"
  | .ifExpression => "IfExpression"
  | .functionLiteral => "FunctionLiteral"
  | .callExpression => "CallExpression"
  | .arrayLiteral => "ArrayLiteral"
  | .indexExpression => "IndexExpression"
  | .letStatement => "LetStatement"
  | .returnStatement => "ReturnStatement"
  | .expressionStatement => "ExpressionStatement"

@[simp] def ofAbstraction : Abstraction → RecordKind
  | .node => .node
  | .statement => .statement
  | .expression => .expression

theorem isWord_text (kind : RecordKind) : Text.isWord kind.text = true := by
  cases kind <;> decide +kernel

end RecordKind

namespace FieldName

@[simp] def text : FieldName → String
  | .type => "type"
  | .literal => "literal"
  | .token => "token"
  | .value => "value"
  | .name => "name"
  | .operator => "operator"
  | .left => "left"
  | .right => "right"
  | .condition => "condition"
  | .consequence => "consequence"
  | .alternative => "alternative"
  | .parameters => "parameters"
  | .body => "body"
  | .function => "function"
  | .arguments => "arguments"
  | .elements => "elements"
  | .index => "index"
  | .expression => "expression"
  | .statements => "statements"

theorem isWord_text (field : FieldName) : Text.isWord field.text = true := by
  cases field <;> decide +kernel

end FieldName

namespace Listed

def entry (field : FieldName) (content : Listed) : Listed := .field ⟨field.text, field.isWord_text⟩ content

def ofKind (kind : RecordKind) (fields : List Listed) : Listed := .record ⟨kind.text, kind.isWord_text⟩ fields

end Listed

open Listed

def Token.listed (token : Token) : Listed :=
  ofKind .token [entry .type (.tokenKind token.kind), entry .literal (.quoted token.literal)]

def Identifier.listed (id : Identifier) : Listed :=
  ofKind .identifier [entry .token id.token.listed, entry .value (.quoted id.name)]

namespace Node

mutual

/-- The listing of a node as a tree. -/
def listed : Node → Listed
  | .hole => .word .none
  | .bare kind => ofKind (.ofAbstraction kind) []
  | .tokenless node => node.listed
  | .parameterList names => .list (names.map Identifier.listed)
  | .program statements => ofKind .program [entry .statements (.list (listedOfAll statements))]
  | .identifier id => id.listed
  | .integer token value =>
    ofKind .integerLiteral [entry .token token.listed, entry .value (.word (.ofInt value))]
  | .boolean token value =>
    ofKind .boolean [entry .token token.listed, entry .value (.word (.ofBool value))]
  | .string token value =>
    ofKind .stringLiteral [entry .token token.listed, entry .value (.quoted value)]
  | .prefixOp token operator right =>
    ofKind .prefixExpression
      [entry .token token.listed, entry .operator (.quoted operator), entry .right right.listed]
  | .infixOp token operator left right =>
    ofKind .infixExpression
      [entry .token token.listed, entry .operator (.quoted operator), entry .left left.listed,
        entry .right right.listed]
  | .block token statements =>
    ofKind .blockStatement [entry .token token.listed, entry .statements (.list (listedOfAll statements))]
  | .conditional token condition consequence alternative =>
    ofKind .ifExpression
      [entry .token token.listed, entry .condition condition.listed, entry .consequence consequence.listed,
        entry .alternative alternative.listed]
  | .function token parameters body =>
    ofKind .functionLiteral
      [entry .token token.listed, entry .parameters (.list (parameters.map Identifier.listed)),
        entry .body body.listed]
  | .call token callee arguments =>
    ofKind .callExpression
      [entry .token token.listed, entry .function callee.listed, entry .arguments (.list (listedOfAll arguments))]
  | .array token elements =>
    ofKind .arrayLiteral [entry .token token.listed, entry .elements (.list (listedOfAll elements))]
  | .index token left subscript =>
    ofKind .indexExpression [entry .token token.listed, entry .left left.listed, entry .index subscript.listed]
  | .letStatement token name value =>
    ofKind .letStatement
      [entry .token token.listed, entry .name ((name.map Identifier.listed).getD (.word .none)),
        entry .value value.listed]
  | .returnStatement token value =>
    ofKind .returnStatement [entry .token token.listed, entry .value value.listed]
  | .expressionStatement token expression =>
    ofKind .expressionStatement [entry .token token.listed, entry .expression expression.listed]

def listedOfAll : List Node → List Listed
  | [] => []
  | node :: nodes => node.listed :: listedOfAll nodes

end

end Node

namespace Listed

@[simp] theorem text_entry (field : FieldName) (content : Listed) :
    (entry field content).text = field.text ++ "=" ++ content.text := by
  rw [entry, text]

@[simp] theorem text_ofKind (kind : RecordKind) (fields : List Listed) :
    (ofKind kind fields).text = kind.text ++ "(" ++ ", ".intercalate (textOfAll fields) ++ ")" := by
  rw [ofKind, text]

@[simp] theorem entry_inj {field field' : FieldName} {content content' : Listed} :
    entry field content = entry field' content' ↔ field.text = field'.text ∧ content = content' := by
  simp [entry]

@[simp] theorem ofKind_inj {kind kind' : RecordKind} {fields fields' : List Listed} :
    ofKind kind fields = ofKind kind' fields' ↔ kind.text = kind'.text ∧ fields = fields' := by
  simp [ofKind]

end Listed

/-! ### The text of a listing is that of its tree -/

@[simp] theorem Token.text_listed (token : Token) : token.listed.text = token.listing := by
  rw [listing, listed, Text.record, text_ofKind]
  rfl

@[simp] theorem Identifier.text_listed (id : Identifier) : id.listed.text = id.listing := by
  simp [listing, listed, Text.record]

theorem Identifier.textOfAll_listed (ids : List Identifier) : textOfAll (ids.map listed) = ids.map listing := by
  induction ids with
  | nil => rfl
  | cons id ids ih => simp [ih]

namespace Node

theorem text_name (name : Option Identifier) :
    ((name.map Identifier.listed).getD (.word .none)).text = (name.map Identifier.listing).getD "None" := by
  cases name with
  | none => rfl
  | some id => exact id.text_listed

mutual

theorem text_listed : ∀ node : Node, node.listed.text = node.listing
  | .hole => rfl
  | .bare kind => by cases kind <;> simp [listing, listed, Text.record, Abstraction.kindName]
  | .tokenless node => by simp [listing, listed, text_listed node]
  | .parameterList names => by simp [listing, listed, Identifier.textOfAll_listed]
  | .program statements => by simp [listing, listed, Text.record, text_listedOfAll statements]
  | .identifier id => id.text_listed
  | .integer token value => by simp [listing, listed, Text.record, Word.ofInt]
  | .boolean token value => by simp [listing, listed, Text.record, Word.ofBool]
  | .string token value => by simp [listing, listed, Text.record]
  | .prefixOp token operator right => by simp [listing, listed, Text.record, text_listed right]
  | .infixOp token operator left right => by
    simp [listing, listed, Text.record, text_listed left, text_listed right]
  | .block token statements => by simp [listing, listed, Text.record, text_listedOfAll statements]
  | .conditional token condition consequence alternative => by
    simp [listing, listed, Text.record, text_listed condition, text_listed consequence, text_listed alternative]
  | .function token parameters body => by
    simp [listing, listed, Text.record, Identifier.textOfAll_listed, text_listed body]
  | .call token callee arguments => by
    simp [listing, listed, Text.record, text_listed callee, text_listedOfAll arguments]
  | .array token elements => by simp [listing, listed, Text.record, text_listedOfAll elements]
  | .index token left subscript => by
    simp [listing, listed, Text.record, text_listed left, text_listed subscript]
  | .letStatement token name value => by simp [listing, listed, Text.record, text_name, text_listed value]
  | .returnStatement token value => by simp [listing, listed, Text.record, text_listed value]
  | .expressionStatement token expression => by simp [listing, listed, Text.record, text_listed expression]

theorem text_listedOfAll : ∀ nodes : List Node, textOfAll (listedOfAll nodes) = listingOfAll nodes
  | [] => rfl
  | node :: nodes => by simp [listingOfAll, listedOfAll, text_listed node, text_listedOfAll nodes]

end

end Node

/-! ### From a listing to its tree -/

theorem RecordKind.ofAbstraction_injective {a b : Abstraction}
    (h : (ofAbstraction a).text = (ofAbstraction b).text) : a = b := by
  cases a <;> cases b <;> first | rfl | simp at h

@[simp] theorem Token.listed_inj {a b : Token} : a.listed = b.listed ↔ a = b := by
  cases a
  cases b
  simp [listed]

@[simp] theorem Identifier.listed_inj {a b : Identifier} : a.listed = b.listed ↔ a = b := by
  cases a
  cases b
  simp [listed]

theorem Identifier.map_listed_injective {as bs : List Identifier} (h : as.map listed = bs.map listed) : as = bs :=
  (List.map_inj_right fun _ _ => listed_inj.1).1 h

/-- There is a sign before the digits if the number is negative, and only then. -/
theorem Word.ofInt_injective {m n : Int} (h : ofInt m = ofInt n) : m = n := by
  have htext : (toString m).toList = (toString n).toList := congrArg (·.text.toList) h
  have hdigits : ∀ {j k : Nat}, (toString j).toList = (toString k).toList → j = k := by
    intro j k h
    rw [← decimal_toString j, h, decimal_toString]
  have hsign : ∀ j k : Nat, (toString j).toList ≠ '-' :: (toString (k + 1)).toList := by
    intro j k h
    have hdash : '-' ∈ (toString j).toList := by
      rw [h]
      exact List.mem_cons_self ..
    exact absurd (isDigit_of_mem_toString hdash) (by decide)
  cases m <;> cases n
  case ofNat.ofNat j k => rw [hdigits htext]
  case ofNat.negSucc j k =>
    rw [toList_toString_negSucc] at htext
    exact absurd htext (hsign j k)
  case negSucc.ofNat j k =>
    rw [toList_toString_negSucc] at htext
    exact absurd htext.symm (hsign k j)
  case negSucc.negSucc j k =>
    rw [toList_toString_negSucc, toList_toString_negSucc] at htext
    rw [Nat.succ_injective (hdigits (List.cons.inj htext).2)]

@[simp] theorem Word.ofInt_inj {m n : Int} : ofInt m = ofInt n ↔ m = n := ⟨ofInt_injective, congrArg ofInt⟩

@[simp] theorem Word.ofBool_inj {a b : Bool} : ofBool a = ofBool b ↔ a = b := by
  cases a <;> cases b <;> simp [ofBool, Text.truth]

namespace Node

@[simp] theorem listed_name_inj {a b : Option Identifier} :
    (a.map Identifier.listed).getD (.word .none) = (b.map Identifier.listed).getD (.word .none) ↔ a = b := by
  cases a with
  | none => cases b <;> simp [Identifier.listed, ofKind]
  | some id =>
    cases b with
    | none => simp [Identifier.listed, ofKind]
    | some id' => simp only [Option.map_some, Option.getD_some, Identifier.listed_inj, Option.some.injEq]

theorem listedOfAll_inj {as bs : List Node} (hc : ∀ a ∈ as, ∀ b ∈ bs, a.listed = b.listed → a = b)
    (h : listedOfAll as = listedOfAll bs) : as = bs := by
  induction as generalizing bs with
  | nil =>
    cases bs with
    | nil => rfl
    | cons b bs => cases h
  | cons a as ih =>
    cases bs with
    | nil => cases h
    | cons b bs =>
      obtain ⟨hfirst, hothers⟩ := List.cons.inj h
      rw [hc a (List.mem_cons_self ..) b (List.mem_cons_self ..) hfirst,
        ih (fun x hx y hy => hc x (List.mem_cons_of_mem _ hx) y (List.mem_cons_of_mem _ hy)) hothers]

/-- A listing shows all of a node but what the listings of its children show, and but that a token is missing. -/
theorem eq_of_listed_of_children {a b : Node} (ha : ∀ inner, a ≠ tokenless inner) (hb : ∀ inner, b ≠ tokenless inner)
    (hc : ∀ x ∈ a.children, ∀ y ∈ b.children, x.listed = y.listed → x = y) (h : a.listed = b.listed) : a = b := by
  -- The names of the kinds differ unless the constructors are the same.
  cases a <;> cases b <;> simp [listed, Identifier.listed, ofKind] at h ha hb
  case hole.hole => rfl
  case bare.bare => exact congrArg bare (RecordKind.ofAbstraction_injective h)
  case parameterList.parameterList => exact congrArg parameterList (Identifier.map_listed_injective h)
  case program.program => exact congrArg program (listedOfAll_inj hc h)
  case identifier.identifier id id' =>
    cases id
    cases id'
    obtain ⟨rfl, rfl⟩ := h
    rfl
  case integer.integer | boolean.boolean | string.string =>
    obtain ⟨rfl, rfl⟩ := h
    rfl
  case prefixOp.prefixOp =>
    obtain ⟨rfl, rfl, hright⟩ := h
    rw [hc _ (by simp [children]) _ (by simp [children]) hright]
  case infixOp.infixOp =>
    obtain ⟨rfl, rfl, hleft, hright⟩ := h
    rw [hc _ (by simp [children]) _ (by simp [children]) hleft,
      hc _ (by simp [children]) _ (by simp [children]) hright]
  case block.block =>
    obtain ⟨rfl, hstatements⟩ := h
    exact congrArg (block _) (listedOfAll_inj hc hstatements)
  case conditional.conditional =>
    obtain ⟨rfl, hcondition, hconsequence, halternative⟩ := h
    rw [hc _ (by simp [children]) _ (by simp [children]) hcondition,
      hc _ (by simp [children]) _ (by simp [children]) hconsequence,
      hc _ (by simp [children]) _ (by simp [children]) halternative]
  case function.function =>
    obtain ⟨rfl, hparameters, hbody⟩ := h
    rw [Identifier.map_listed_injective hparameters, hc _ (by simp [children]) _ (by simp [children]) hbody]
  case call.call =>
    obtain ⟨rfl, hcallee, harguments⟩ := h
    rw [hc _ (List.mem_cons_self ..) _ (List.mem_cons_self ..) hcallee,
      listedOfAll_inj (fun x hx y hy => hc x (List.mem_cons_of_mem _ hx) y (List.mem_cons_of_mem _ hy)) harguments]
  case array.array =>
    obtain ⟨rfl, helements⟩ := h
    exact congrArg (array _) (listedOfAll_inj hc helements)
  case index.index =>
    obtain ⟨rfl, hleft, hsubscript⟩ := h
    rw [hc _ (by simp [children]) _ (by simp [children]) hleft,
      hc _ (by simp [children]) _ (by simp [children]) hsubscript]
  case letStatement.letStatement =>
    obtain ⟨rfl, rfl, hvalue⟩ := h
    rw [hc _ (by simp [children]) _ (by simp [children]) hvalue]
  case returnStatement.returnStatement =>
    obtain ⟨rfl, hvalue⟩ := h
    rw [hc _ (by simp [children]) _ (by simp [children]) hvalue]
  case expressionStatement.expressionStatement =>
    obtain ⟨rfl, hexpression⟩ := h
    rw [hc _ (by simp [children]) _ (by simp [children]) hexpression]

theorem FormedOrHole.ne_tokenless {node : Node} (h : node.FormedOrHole) (inner : Node) : node ≠ tokenless inner := by
  rintro rfl
  exact absurd (h rfl).wellMade nofun

theorem Formed.eq_of_listed {a b : Node} (ha : a.Formed) (hb : b.FormedOrHole) (h : a.listed = b.listed) : a = b := by
  induction ha generalizing b with
  | @mk a made below ih =>
    have hne : ∀ inner, a ≠ tokenless inner := FormedOrHole.ne_tokenless fun _ => .mk made below
    refine eq_of_listed_of_children hne hb.ne_tokenless (fun x hx y hy hxy => ?_) h
    have hformed := hb.child hy
    cases hhole : x.isHole with
    | false => exact ih x hx hhole hformed hxy
    | true =>
      obtain rfl := isHole_iff.1 hhole
      exact eq_of_listed_of_children nofun hformed.ne_tokenless nofun hxy

theorem Formed.eq_of_listing {a b : Node} (ha : a.Formed) (hb : b.Formed) (h : a.listing = b.listing) : a = b := by
  have htext : a.listed.text.toList ++ [] = b.listed.text.toList ++ [] := by
    rw [text_listed, text_listed, h]
  exact ha.eq_of_listed (fun _ => hb) (text_append_inj _ _ _ _ closed_nil closed_nil htext).1

end Node

/-- Programs that have been read, with syntax errors or without, are equal, tokens included, if and only if they have
the same listing. -/
theorem listings_tell_programs_apart (limits : Limits) {a b : String} {pa pb : Parsed}
    (ha : parse limits a = .ok pa) (hb : parse limits b = .ok pb) :
    pa.program = pb.program ↔ pa.program.listing = pb.program.listing :=
  ⟨congrArg Node.listing, fun h => (parse_formed ha).1.eq_of_listing (parse_formed hb).1 h⟩

/-- Two strings that differ in a backslash, and an error after each of them. -/
theorem apostrophes_told_apart :
    ∃ pa pb : Parsed, parse Limits.standard "\"it's\" let" = .ok pa ∧
      parse Limits.standard "\"it\\'s\" let" = .ok pb ∧
      pa.errors ≠ [] ∧ pb.errors ≠ [] ∧ pa.program.listing ≠ pb.program.listing := by
  refine ⟨_, _, rfl, rfl, by decide +kernel, by decide +kernel, fun h => ?_⟩
  have hprograms :=
    (listings_tell_programs_apart Limits.standard (a := "\"it's\" let") (b := "\"it\\'s\" let") rfl rfl).2 h
  revert hprograms
  decide +kernel

end Scriptlet
