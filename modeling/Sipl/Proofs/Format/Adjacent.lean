import Mathlib.Data.List.Chain
import Sipl.Proofs.Format.Parentheses

namespace Sipl

open Ink Scan

namespace Ink

/-- What may stand directly in front of an opening parenthesis. -/
def Opens : Ink → Prop
  | word "(" => True
  | word "-" => True
  | word text => IsName text
  | space => True
  | line _ => True

/-- What may stand directly behind a closing parenthesis. -/
def Closes : Ink → Prop
  | word ")" => True
  | word "," => True
  | word ";" => True
  | word _ => False
  | space => True
  | line _ => True

def Joins (left right : Ink) : Prop :=
  (right = word "(" → left.Opens) ∧ (left = word ")" → right.Closes)

/-- All parentheses stand next to what may stand there. -/
abbrev Joined (inks : List Ink) : Prop := inks.IsChain Joins

theorem opens_of_isName {name : String} (named : IsName name) : (word name).Opens := by
  unfold Opens
  split
  · trivial
  · trivial
  case h_3 same =>
    obtain rfl := Ink.word.inj same
    exact named
  case h_4 same => cases same
  case h_5 same => cases same

namespace Joined

variable {ink : Ink} {inks more : List Ink} {text symbol : String}

theorem single (ink : Ink) : Joined [ink] := .singleton ink

theorem behind (opens : ink.Opens) (other : ink ≠ word ")") (joined : Joined inks) :
    Joined (ink :: inks) :=
  joined.cons fun _ _ => ⟨fun _ => opens, fun closing => absurd closing other⟩

theorem space (joined : Joined inks) : Joined (.space :: inks) := joined.behind trivial (by simp)

theorem line (columns : Nat) (joined : Joined inks) : Joined (.line columns :: inks) :=
  joined.behind trivial (by simp)

/-- A word in front of something else than a parenthesis. -/
theorem apart (joined : Joined (ink :: inks)) (unopened : ink ≠ word "(") (other : text ≠ ")") :
    Joined (word text :: ink :: inks) := by
  refine List.IsChain.cons joined fun next first => ?_
  obtain rfl : ink = next := Option.some.inj first
  exact ⟨fun opening => absurd opening unopened, fun same => absurd (Ink.word.inj same) other⟩

/-- A word in front of a blank. -/
theorem spaced (joined : Joined inks) (other : text ≠ ")") :
    Joined (word text :: .space :: inks) :=
  joined.space.apart (by simp) other

theorem lined {columns : Nat} (joined : Joined inks) (other : text ≠ ")") :
    Joined (word text :: .line columns :: inks) :=
  (joined.line columns).apart (by simp) other

theorem around (first : Joined more) (joined : Joined (ink :: inks)) (closes : ink.Closes)
    (unopened : ink ≠ word "(") : Joined (more ++ ink :: inks) := by
  refine List.IsChain.append first joined fun last _ next head => ?_
  obtain rfl : ink = next := Option.some.inj head
  exact ⟨fun opening => absurd opening unopened, fun _ => closes⟩

theorem enclosed (joined : Joined inks) : Joined (word "(" :: inks ++ [word ")"]) := by
  have closed : Joined (inks ++ [word ")"]) := joined.around (single _) trivial (by simp)
  exact closed.behind trivial (by simp)

theorem grouped (joined : Joined inks) (needed : Bool) : Joined (Ink.grouped needed inks) := by
  cases needed with
  | false => exact joined
  | true => exact joined.enclosed

theorem between (first : Joined more) (second : Joined inks) (other : symbol ≠ ")") :
    Joined (more ++ .space :: word symbol :: .space :: inks) :=
  first.around (second.spaced other).space trivial (by simp)

theorem commaSeparated {groups : List (List Ink)} (joined : ∀ group ∈ groups, Joined group) :
    Joined (commaSeparated groups) := by
  fun_induction Ink.commaSeparated groups with
  | case1 => exact .nil
  | case2 last => exact joined last List.mem_cons_self
  | case3 first rest many ih =>
      obtain ⟨one, others⟩ := List.forall_mem_cons.mp joined
      exact one.around ((ih others).spaced (by decide)) trivial (by simp)

end Joined

end Ink

namespace Expr

mutual

theorem joined_inks (expr : Expr) (writable : expr.Writable) : Joined expr.inks := by
  match expr with
  | literal _ value => exact .single _
  | var _ name => exact .single _
  | unary _ op operand =>
      have inner := (operand.joined_inks writable.1).grouped (operand.looseOperand .unary)
      cases op with
      | neg => exact inner.behind trivial (by simp)
      | not => exact inner.spaced (by decide)
  | arith _ op left right =>
      exact ((left.joined_inks writable.1.1).grouped _).between
        ((right.joined_inks writable.2.1).grouped _) (by cases op <;> decide)
  | logical _ op left right =>
      exact ((left.joined_inks writable.1.1).grouped _).between
        ((right.joined_inks writable.2.1).grouped _) (by cases op <;> decide)
  | ifThen _ cond thenBranch =>
      have branch := (thenBranch.joined_inks writable.2.1).grouped (thenBranch.loose .comparison)
      exact ((cond.joined_inks writable.1).between branch (by decide)).spaced (by decide)
  | ifElse _ cond thenBranch elseBranch =>
      have first := (thenBranch.joined_inks writable.2.1.1).grouped
        (thenBranch.endsOpen || thenBranch.loose .comparison)
      have second := (elseBranch.joined_inks writable.2.2.1).grouped (elseBranch.loose .comparison)
      have branches := first.between second (by decide : "else" ≠ ")")
      rw [inks, List.append_assoc]
      exact ((cond.joined_inks writable.1).between branches (by decide)).spaced (by decide)
  | call _ callee args =>
      have named : wordSide callee = .inner := wordSide_of_isName writable.1
      have group := Joined.commaSeparated (joined_argsInks args writable.2)
      refine group.enclosed.behind (opens_of_isName writable.1) fun same => ?_
      rw [Ink.word.inj same] at named
      cases named

theorem joined_argsInks (args : List Expr) (writable : ArgsWritable args) :
    ∀ group ∈ argsInks args, Joined group := by
  match args with
  | [] => exact List.forall_mem_nil _
  | arg :: rest =>
      exact List.forall_mem_cons.mpr
        ⟨(arg.joined_inks writable.1.1).grouped _, joined_argsInks rest writable.2⟩

end

end Expr

mutual

theorem Stmt.joined_inks (depth : Nat) (stmt : Stmt) (writable : stmt.Writable) :
    Joined (stmt.inks depth) := by
  match stmt with
  | .assign _ target value =>
      have plain : wordSide target = .inner := wordSide_of_isName writable.1
      refine ((value.joined_inks writable.2).spaced (by decide)).spaced fun same => ?_
      rw [same] at plain
      cases plain
  | .ifThen _ cond thenBlock =>
      have block := thenBlock.joined_inks depth writable.2
      exact ((cond.joined_inks writable.1).between block (by decide)).spaced (by decide)
  | .ifElse _ cond thenBlock elseBlock =>
      have first := thenBlock.joined_inks depth writable.2.1
      have blocks := first.between (elseBlock.joined_inks depth writable.2.2)
        (by decide : "else" ≠ ")")
      rw [Stmt.inks, List.append_assoc]
      exact ((cond.joined_inks writable.1).between blocks (by decide)).spaced (by decide)
  | .whileLoop _ cond body =>
      have block := body.joined_inks depth writable.2
      exact ((cond.joined_inks writable.1).between block (by decide)).spaced (by decide)

theorem Block.joined_inks (depth : Nat) (block : Block) (writable : block.Writable) :
    Joined (block.inks depth) := by
  match block with
  | .mk _ [] => exact (Joined.single _).spaced (by decide)
  | .mk _ (first :: others) =>
      have head := first.joined_inks (depth + 1) writable.1
      have whole := joined_stmtsInks (depth + 1) others writable.2 (depth * indentWidth) head
        (Joined.single (word "end"))
      have opened : Joined (word "begin" :: line ((depth + 1) * indentWidth) ::
          (first.inks (depth + 1) ++ stmtsInks (depth + 1) others ++
            [line (depth * indentWidth), word "end"])) := whole.lined (by decide)
      exact opened

/-- Statements between something else and a line break. -/
theorem joined_stmtsInks (depth : Nat) (stmts : List Stmt) (writable : StmtsWritable stmts)
    (columns : Nat) {front back : List Ink} (before : Joined front) (behind : Joined back) :
    Joined (front ++ stmtsInks depth stmts ++ line columns :: back) := by
  match stmts with
  | [] =>
      rw [stmtsInks, List.append_nil]
      exact before.around (behind.line columns) trivial (by simp)
  | stmt :: others =>
      have rest := joined_stmtsInks depth others writable.2 columns
        (stmt.joined_inks depth writable.1) behind
      have separated : Joined (word ";" :: line (depth * indentWidth) ::
          (stmt.inks depth ++ stmtsInks depth others ++ line columns :: back)) :=
        rest.lined (by decide)
      have whole := before.around separated trivial (by simp)
      simpa [stmtsInks] using whole

end

theorem Function.joined_inks {function : Function} (writable : function.Writable) :
    Joined function.inks := by
  have plain : wordSide function.name = .inner := wordSide_of_isName writable.named
  have body := (function.body.joined_inks writable.body).grouped (function.body.loose .comparison)
  have params : Joined (commaSeparated (function.params.map fun param => [word param.name])) := by
    refine Joined.commaSeparated fun group member => ?_
    obtain ⟨param, _, rfl⟩ := List.mem_map.mp member
    exact .single _
  have declared : Joined (word ")" :: space :: word "=" :: space ::
      function.body.inksAt .comparison) := by
    refine List.IsChain.cons (body.spaced (by decide)).space fun next first => ?_
    obtain rfl : space = next := Option.some.inj first
    exact ⟨nofun, fun _ => trivial⟩
  have inner := params.around declared trivial (by simp)
  have opened : Joined (word "(" ::
      (commaSeparated (function.params.map fun param => [word param.name]) ++
        word ")" :: space :: word "=" :: space :: function.body.inksAt .comparison)) :=
    inner.behind trivial (by simp)
  refine (opened.behind (opens_of_isName writable.named) fun same => ?_).spaced (by decide)
  rw [Ink.word.inj same] at plain
  cases plain

theorem joined_functionsInks {functions : List Function}
    (writable : ∀ function ∈ functions, function.Writable) {back : List Ink}
    (behind : Joined back) : Joined (functionsInks functions ++ back) := by
  fun_induction functionsInks functions with
  | case1 => exact behind
  | case2 last =>
      have one := Function.joined_inks (writable last List.mem_cons_self)
      rw [List.append_assoc]
      exact one.around (behind.line 0) trivial (by simp)
  | case3 first others many ih =>
      obtain ⟨one, rest⟩ := List.forall_mem_cons.mp writable
      rw [List.append_assoc]
      exact (Function.joined_inks one).around ((ih rest).lined (by decide)) trivial (by simp)

theorem Program.joined_inks {program : Program} (writable : program.Writable) :
    Joined program.inks := by
  have body := program.body.joined_inks 0 writable.body
  have ended : Joined (program.body.inks 0 ++ [line 0]) :=
    body.around (Joined.single _) trivial (by simp)
  have whole := joined_functionsInks writable.functions ended
  rw [Program.inks, List.append_assoc]
  exact whole.lined (by decide)

namespace Ink

variable {front middle back inks : List Ink} {next other : Option Char}

theorem text_ne_nil {ink : Ink} (legible : Legible next (ink :: inks)) :
    text (ink :: inks) ≠ [] := by
  cases ink with
  | word lexeme =>
      obtain ⟨⟨kind, spells, _⟩, _⟩ := legible
      simp [chars, spells.ne_nil]
  | space => simp [chars]
  | line columns => simp [chars]

/-- Text may stand in front of any character that does not continue its last word. -/
theorem Legible.instead (legible : Legible next inks)
    (stopped : ∀ lexeme, inks.getLast? = some (word lexeme) → ∀ kind, Spells kind lexeme.toList →
      ∀ char ∈ other, kind.continues char = false) : Legible other inks := by
  induction inks with
  | nil => trivial
  | cons ink rest ih =>
      cases rest with
      | nil =>
          cases ink with
          | word lexeme =>
              obtain ⟨⟨kind, spells, _⟩, _⟩ := legible
              exact ⟨⟨kind, spells, stopped lexeme rfl kind spells⟩, trivial⟩
          | space => trivial
          | line columns => trivial
      | cons second others =>
          have later : ∀ lexeme, (second :: others).getLast? = some (word lexeme) → ∀ kind,
              Spells kind lexeme.toList → ∀ char ∈ other, kind.continues char = false :=
            fun lexeme last => stopped lexeme (by rwa [List.getLast?_cons_cons])
          cases ink with
          | word lexeme =>
              obtain ⟨⟨kind, spells, apart⟩, rest⟩ := legible
              obtain ⟨char, tail, same⟩ := List.exists_cons_of_ne_nil (text_ne_nil rest)
              refine ⟨⟨kind, spells, ?_⟩, ih rest later⟩
              rw [same] at apart ⊢
              exact apart
          | space => exact ih legible later
          | line columns => exact ih legible later

theorem Kind.continues_eq_false {char : Char} (listed : char ∈ [' ', '\n', ')', ',', ';'])
    (kind : Kind) : kind.continues char = false := by
  have separate : ([' ', '\n', ')', ',', ';'].all fun char => !kind.continues char) = true := by
    cases kind <;> decide
  simpa using List.all_eq_true.mp separate char listed

theorem Closes.stops {ink : Ink} (closes : ink.Closes) :
    ∃ char, ink.chars.head? = some char ∧ ∀ kind : Kind, kind.continues char = false := by
  have stops {char : Char} (first : ink.chars.head? = some char)
      (listed : char ∈ [' ', '\n', ')', ',', ';']) :
      ∃ char, ink.chars.head? = some char ∧ ∀ kind : Kind, kind.continues char = false :=
    ⟨char, first, Kind.continues_eq_false listed⟩
  unfold Closes at closes
  split at closes
  case h_4 => exact absurd closes id
  all_goals exact stops rfl (by decide)

theorem Opens.stops {lexeme : String} (opens : (word lexeme).Opens) (unnamed : ¬ IsName lexeme)
    {kind : Kind} (spells : Spells kind lexeme.toList) (char : Char) :
    kind.continues char = false := by
  unfold Opens at opens
  split at opens
  case h_1 same =>
    obtain rfl := Ink.word.inj same
    obtain rfl := spells.kind_unique (.of_symbol (by decide : Kind.leftParen ∈ _))
    rfl
  case h_2 same =>
    obtain rfl := Ink.word.inj same
    obtain rfl := spells.kind_unique (.of_symbol (by decide : Kind.minus ∈ _))
    rfl
  case h_3 same =>
    obtain rfl := Ink.word.inj same
    exact absurd opens unnamed
  case h_4 same => cases same
  case h_5 same => cases same

theorem getLast?_words {lexeme : String} (last : inks.getLast? = some (word lexeme)) :
    (words inks).getLast? = some lexeme := by
  obtain ⟨front, rfl⟩ := List.getLast?_eq_some_iff.mp last
  simp [words]

/-- Without a pair of parentheses that does not stand behind a name, the text stays legible. -/
theorem Legible.without
    (legible : Legible none (front ++ word "(" :: (middle ++ word ")" :: back)))
    (joined : Joined (front ++ word "(" :: (middle ++ word ")" :: back)))
    (free : ¬ BehindName (words front)) : Legible none (front ++ (middle ++ back)) := by
  obtain ⟨legibleFront, _, legibleRest⟩ := legible_append.mp legible
  obtain ⟨legibleMiddle, _, legibleBack⟩ := legible_append.mp legibleRest
  obtain ⟨_, joinedRest, opens⟩ := List.isChain_append.mp joined
  obtain ⟨_, joinedBack, _⟩ := List.isChain_append.mp joinedRest.tail
  -- Only the last words of the first two parts stand in front of other characters than before.
  refine legible_append.mpr ⟨legibleFront.instead ?_, legible_append.mpr
    ⟨legibleMiddle.instead ?_, legibleBack⟩⟩
  · intro lexeme last kind spells char _
    have unnamed : ¬ IsName lexeme := fun named => free ⟨lexeme, getLast?_words last, named⟩
    exact ((opens _ last _ rfl).1 rfl).stops unnamed spells char
  · intro lexeme last kind spells char following
    cases back with
    | nil => cases following
    | cons ink rest =>
        obtain ⟨first, head, stops⟩ := Closes.stops ((joinedBack.rel_head? rfl).2 rfl)
        rw [Option.or_none, text_cons, List.head?_append, head] at following
        obtain rfl := Option.some.inj following
        exact stops kind

end Ink

end Sipl
