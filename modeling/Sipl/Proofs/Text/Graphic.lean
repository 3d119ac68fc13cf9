import Sipl.Proofs.Token.Lexeme

namespace Sipl

open Scan

/-- The character is none of those of the text. -/
def Lacks (char : Char) (text : String) : Prop := char ∉ text.toList

instance (char : Char) (text : String) : Decidable (Lacks char text) :=
  inferInstanceAs (Decidable (¬ _))

namespace Lacks

variable {char : Char} {left right : String}

theorem append (first : Lacks char left) (second : Lacks char right) :
    Lacks char (left ++ right) := by
  rw [Lacks, String.toList_append, List.mem_append, not_or]
  exact ⟨first, second⟩

theorem join {texts : List String} (each : ∀ text ∈ texts, Lacks char text) :
    Lacks char (String.join texts) := by
  rw [Lacks, String.toList_join, List.mem_flatMap]
  rintro ⟨text, listed, member⟩
  exact each text listed member

end Lacks

/-- No character of the text is a control character of ASCII. -/
def Graphic (text : String) : Prop := ∀ char ∈ text.toList, ' ' ≤ char

/-- The characters are looked at one after the other. -/
instance (text : String) : Decidable (Graphic text) :=
  decidable_of_iff (text.toList.all fun char => ' ' ≤ char) (by simp [Graphic])

namespace Graphic

variable {text left right : String}

theorem append (first : Graphic left) (second : Graphic right) : Graphic (left ++ right) := by
  rw [Graphic, String.toList_append]
  exact List.forall_mem_append.mpr ⟨first, second⟩

theorem lacks {char : Char} (graphic : Graphic text) (control : ¬ ' ' ≤ char) : Lacks char text :=
  fun member => control (graphic char member)

theorem unbroken (graphic : Graphic text) : Lacks '\n' text := graphic.lacks (by decide)

theorem escapeless (graphic : Graphic text) : Lacks '\x1b' text := graphic.lacks (by decide)

theorem of_spells {kind : Kind} (spells : Spells kind text.toList) : Graphic text := by
  have symbols : ∀ symbol ∈ Spells.symbols, Graphic symbol.2 := by decide
  have words : ∀ word ∈ Spells.words, Graphic word.2 := by decide
  generalize spelling : text.toList = lexeme at spells
  rw [Graphic, spelling]
  cases spells with
  | symbol listed => exact symbols _ listed
  | bang => exact show Graphic "!=" by decide
  | reserved listed => exact words _ listed
  | number _ decimal =>
      intro char member
      have digit := isDigit_iff.mp (isDigit_iff_range.mpr (decimal char member))
      exact show 32 ≤ char.toNat by omega
  | name _ word _ =>
      intro char member
      have letter := isLetter_iff.mp (isLetter_iff_range.mpr (word char member))
      exact show 32 ≤ char.toNat by omega

theorem number (value : Nat) : Graphic (toString value) := by
  have digits : (toString value).toList = Nat.toDigits 10 value := Nat.toList_repr
  rw [Graphic, digits]
  intro digit member
  have decimal := Nat.isDigit_of_mem_toDigits (by decide) (by decide) member
  simp only [Char.isDigit, Bool.and_eq_true, decide_eq_true_eq] at decimal
  exact Nat.le_trans (show 32 ≤ 48 by decide) decimal.1

end Graphic

end Sipl
