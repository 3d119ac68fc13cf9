import Sipl.Proofs.Format.Parentheses
import Sipl.Proofs.Format.RoundTrip

namespace Sipl

open Ink

/-- An expression, or some words that stand outside of expressions. -/
inductive Slot where
  | frame (words : List String)
  | value (expr : Expr)

def Slot.words : Slot → List String
  | frame words => words
  | value expr => Ink.words expr.inks

mutual

def Stmt.slots : Stmt → List Slot
  | .assign _ target value => [.frame [target, ":="], .value value]
  | .ifThen _ cond thenBlock =>
    .frame ["if"] :: .value cond :: .frame ["then"] :: thenBlock.slots
  | .ifElse _ cond thenBlock elseBlock =>
    .frame ["if"] :: .value cond :: .frame ["then"] ::
      (thenBlock.slots ++ .frame ["else"] :: elseBlock.slots)
  | .whileLoop _ cond body => .frame ["while"] :: .value cond :: .frame ["do"] :: body.slots

def Block.slots : Block → List Slot
  | .mk _ [] => [.frame ["begin", "end"]]
  | .mk _ (first :: others) => .frame ["begin"] :: (first.slots ++ stmtsSlots others)

/-- The statements behind the first one, and the end of their block. -/
def stmtsSlots : List Stmt → List Slot
  | [] => [.frame ["end"]]
  | stmt :: others => .frame [";"] :: (stmt.slots ++ stmtsSlots others)

end

/-- The words of a declaration in front of its body. -/
def Function.header (function : Function) : List String :=
  "func" :: function.name :: "(" ::
    (words (commaSeparated (function.params.map fun param => [word param.name])) ++ [")"]) ++ ["="]

def Function.slots (function : Function) : List Slot :=
  [.frame function.header, .value function.body]

def functionsSlots : List Function → List Slot
  | [] => []
  | [last] => last.slots
  | first :: others => first.slots ++ .frame [";"] :: functionsSlots others

def Program.slots (program : Program) : List Slot :=
  .frame ["program"] :: (functionsSlots program.functions ++ program.body.slots)

mutual

theorem Stmt.words_slots (depth : Nat) (stmt : Stmt) :
    words (stmt.inks depth) = stmt.slots.flatMap Slot.words := by
  match stmt with
  | .assign .. => simp [Stmt.inks, Stmt.slots, words, Slot.words]
  | .ifThen _ _ thenBlock | .whileLoop _ _ thenBlock =>
      simp [Stmt.inks, Stmt.slots, words, Slot.words, thenBlock.words_slots depth]
  | .ifElse _ _ thenBlock elseBlock =>
      simp [Stmt.inks, Stmt.slots, words, Slot.words, thenBlock.words_slots depth,
        elseBlock.words_slots depth]

theorem Block.words_slots (depth : Nat) (block : Block) :
    words (block.inks depth) = block.slots.flatMap Slot.words := by
  match block with
  | .mk _ [] => rfl
  | .mk _ (first :: others) =>
      have rest := words_stmtsSlots (depth + 1) others
      simp [Block.inks, Block.slots, words, Slot.words, first.words_slots (depth + 1), ← rest]

theorem words_stmtsSlots (depth : Nat) (stmts : List Stmt) :
    words (stmtsInks depth stmts) ++ ["end"] = (stmtsSlots stmts).flatMap Slot.words := by
  match stmts with
  | [] => rfl
  | stmt :: others =>
      have rest := words_stmtsSlots depth others
      simp [stmtsInks, stmtsSlots, words, Slot.words, stmt.words_slots depth, ← rest]

end

theorem Function.words_slots {function : Function} (writable : function.Writable) :
    words function.inks = function.slots.flatMap Slot.words := by
  have tight := Expr.tight_of_fits writable.fits
  simp [Function.inks, Function.slots, Function.header, Expr.inksAt, words, Slot.words, grouped,
    tight]

theorem words_functionsSlots {functions : List Function}
    (writable : ∀ function ∈ functions, function.Writable) :
    words (functionsInks functions) = (functionsSlots functions).flatMap Slot.words := by
  fun_induction functionsSlots functions with
  | case1 => rfl
  | case2 last =>
      have one := Function.words_slots (writable last List.mem_cons_self)
      simp [functionsInks, words, one]
  | case3 first others many ih =>
      have one := Function.words_slots (writable first List.mem_cons_self)
      have rest := ih fun function member => writable function (List.mem_cons_of_mem _ member)
      rw [functionsInks]
      · simp [words, Slot.words, one, rest]
      · exact many

theorem Program.words_slots {program : Program} (writable : program.Writable) :
    words program.inks = program.slots.flatMap Slot.words := by
  simp [Program.inks, Program.slots, words, Slot.words, words_functionsSlots writable.functions,
    program.body.words_slots 0]

/-- Words outside of expressions are balanced, and parentheses among them stand behind names. -/
def Slot.Ready : Slot → Prop
  | frame words => WellBracketed wordSide words ∧
      ∀ front middle back, Pair wordSide words front middle back → BehindName front
  | value expr => expr.Writable

theorem Slot.Ready.balanced {slot : Slot} (ready : slot.Ready) :
    WellBracketed wordSide slot.words := by
  cases slot with
  | frame words => exact ready.1
  | value expr => exact (expr.counted ready).balanced

theorem Pair.not_inner {words front middle back : List String}
    (plain : ∀ word ∈ words, wordSide word = .inner) : ¬ Pair wordSide words front middle back := by
  rintro ⟨⟨opening, _, opens, _, rfl⟩, _⟩
  have inner := plain opening (by simp)
  rw [opens] at inner
  cases inner

theorem Slot.ready_frame {words : List String} (plain : ∀ word ∈ words, wordSide word = .inner) :
    (frame words).Ready :=
  ⟨balanced_of_inner plain, fun _ _ _ pair => absurd pair (Pair.not_inner plain)⟩

theorem ready_word (word : String) (plain : wordSide word = .inner := by rfl) :
    (Slot.frame [word]).Ready :=
  Slot.ready_frame (List.forall_mem_singleton.mpr plain)

mutual

theorem Stmt.slots_ready (stmt : Stmt) (writable : stmt.Writable) :
    ∀ slot ∈ stmt.slots, slot.Ready := by
  match stmt with
  | .assign _ target value =>
      obtain ⟨named, inside⟩ := writable
      have plain : ∀ word ∈ [target, ":="], wordSide word = .inner :=
        List.forall_mem_cons.mpr ⟨wordSide_of_isName named, List.forall_mem_singleton.mpr rfl⟩
      exact List.forall_mem_cons.mpr ⟨Slot.ready_frame plain, List.forall_mem_singleton.mpr inside⟩
  | .ifThen _ cond thenBlock =>
      exact List.forall_mem_cons.mpr ⟨ready_word "if", List.forall_mem_cons.mpr
        ⟨writable.1, List.forall_mem_cons.mpr ⟨ready_word "then",
          thenBlock.slots_ready writable.2⟩⟩⟩
  | .ifElse _ cond thenBlock elseBlock =>
      have blocks := List.forall_mem_append.mpr ⟨thenBlock.slots_ready writable.2.1,
        List.forall_mem_cons.mpr ⟨ready_word "else", elseBlock.slots_ready writable.2.2⟩⟩
      exact List.forall_mem_cons.mpr ⟨ready_word "if", List.forall_mem_cons.mpr
        ⟨writable.1, List.forall_mem_cons.mpr ⟨ready_word "then", blocks⟩⟩⟩
  | .whileLoop _ cond body =>
      exact List.forall_mem_cons.mpr ⟨ready_word "while", List.forall_mem_cons.mpr
        ⟨writable.1, List.forall_mem_cons.mpr ⟨ready_word "do", body.slots_ready writable.2⟩⟩⟩

theorem Block.slots_ready (block : Block) (writable : block.Writable) :
    ∀ slot ∈ block.slots, slot.Ready := by
  match block with
  | .mk _ [] =>
      have plain : ∀ word ∈ ["begin", "end"], wordSide word = .inner := by decide
      exact List.forall_mem_singleton.mpr (Slot.ready_frame plain)
  | .mk _ (first :: others) =>
      exact List.forall_mem_cons.mpr ⟨ready_word "begin", List.forall_mem_append.mpr
        ⟨first.slots_ready writable.1, stmtsSlots_ready others writable.2⟩⟩

theorem stmtsSlots_ready (stmts : List Stmt) (writable : StmtsWritable stmts) :
    ∀ slot ∈ stmtsSlots stmts, slot.Ready := by
  match stmts with
  | [] => exact List.forall_mem_singleton.mpr (ready_word "end")
  | stmt :: others =>
      exact List.forall_mem_cons.mpr ⟨ready_word ";", List.forall_mem_append.mpr
        ⟨stmt.slots_ready writable.1, stmtsSlots_ready others writable.2⟩⟩

end

theorem wordSide_params {params : List Param} (named : ∀ param ∈ params, IsName param.name) :
    ∀ listed ∈ words (commaSeparated (params.map fun param => [word param.name])),
      wordSide listed = .inner := by
  cases params with
  | nil => exact List.forall_mem_nil _
  | cons first others =>
      obtain ⟨one, rest⟩ := List.forall_mem_cons.mp named
      rw [words_params]
      refine List.forall_mem_cons.mpr ⟨wordSide_of_isName one, fun listed member => ?_⟩
      obtain ⟨param, among, same⟩ := List.mem_flatMap.mp member
      rcases List.mem_pair.mp same with rfl | rfl
      · rfl
      · exact wordSide_of_isName (rest param among)

theorem Function.header_ready {function : Function} (writable : function.Writable) :
    (Slot.frame function.header).Ready := by
  have name := wordSide_of_isName writable.named
  have params := wordSide_params writable.params
  have inside := balanced_of_inner params
  have whole := ((WellBracketed.enclosed (rfl : wordSide "(" = .opening) inside
    (rfl : wordSide ")" = .closing)).cons name).cons (rfl : wordSide "func" = .inner)
  refine ⟨whole.append (.single rfl), fun front middle back pair => ?_⟩
  rcases pair.append whole with ⟨rest, within, rfl⟩ | ⟨rest, behind, rfl⟩
  · obtain ⟨front, behindWord, rfl⟩ := within.behind rfl
    obtain ⟨front, behindName, rfl⟩ := behindWord.behind name
    rcases behindName.enclosed inside with ⟨rfl, _⟩ | ⟨_, _, among, _⟩
    · exact ⟨function.name, rfl, writable.named⟩
    · exact absurd among (Pair.not_inner params)
  · exact absurd behind (Pair.not_inner (List.forall_mem_singleton.mpr rfl))

theorem Function.slots_ready {function : Function} (writable : function.Writable) :
    ∀ slot ∈ function.slots, slot.Ready :=
  List.forall_mem_cons.mpr
    ⟨Function.header_ready writable, List.forall_mem_singleton.mpr writable.body⟩

theorem functionsSlots_ready {functions : List Function}
    (writable : ∀ function ∈ functions, function.Writable) :
    ∀ slot ∈ functionsSlots functions, slot.Ready := by
  fun_induction functionsSlots functions with
  | case1 => exact List.forall_mem_nil _
  | case2 last => exact Function.slots_ready (writable last List.mem_cons_self)
  | case3 first others many ih =>
      obtain ⟨one, rest⟩ := List.forall_mem_cons.mp writable
      exact List.forall_mem_append.mpr
        ⟨Function.slots_ready one, List.forall_mem_cons.mpr ⟨ready_word ";", ih rest⟩⟩

theorem Program.slots_ready {program : Program} (writable : program.Writable) :
    ∀ slot ∈ program.slots, slot.Ready :=
  List.forall_mem_cons.mpr ⟨ready_word "program", List.forall_mem_append.mpr
    ⟨functionsSlots_ready writable.functions, program.body.slots_ready writable.body⟩⟩

end Sipl
