import Mathlib.Data.Finset.Card
import Sipl.Proofs.Run.NumberedNames
import Sipl.Proofs.Token.Composition

namespace Sipl

open Scan

structure Interner where
  numbers : Std.HashMap String Nat := ({} : Std.HashMap String Nat).insert "" 0
  texts : Array String := #[""]

namespace Interner

/-- How many texts can be numbered. -/
def capacity : Nat := 2 ^ 32

def size (interner : Interner) : Nat := interner.texts.size

/-- The number of a text; nothing if it is a new text and there is no number left. -/
def intern (interner : Interner) (text : String) : Option (Nat × Interner) :=
  match interner.numbers[text]? with
  | some number => some (number, interner)
  | none =>
    if interner.size < capacity then
      some (interner.size,
        ⟨interner.numbers.insert text interner.size, interner.texts.push text⟩)
    else
      none

/-- The text with a number; a number never given out stands for the empty text. -/
def lookup (interner : Interner) (number : Nat) : String := interner.texts[number]?.getD ""

/-- The numbers of texts that are numbered one after the other. -/
def internAll (interner : Interner) : List String → Option (List Nat × Interner)
  | [] => some ([], interner)
  | text :: rest => do
    let (number, next) ← interner.intern text
    let (numbers, last) ← next.internAll rest
    return (number :: numbers, last)

/-- The number of the lexeme of a token.  That of an end marker is not looked for. -/
def internToken (interner : Interner) (token : Token) : Option (Nat × Interner) :=
  if token.kind = .eof then some (0, interner) else interner.intern token.lexeme

def internTokens (interner : Interner) : List Token → Option (List Nat × Interner)
  | [] => some ([], interner)
  | token :: rest => do
    let (number, next) ← interner.internToken token
    let (numbers, last) ← next.internTokens rest
    return (number :: numbers, last)

end Interner

namespace NameTable

/-- No text is listed twice, and the empty text is listed first. -/
structure Lawful (table : NameTable) : Prop where
  distinct : table.names.Nodup
  empty : table.names[0]? = some ""

variable {table : NameTable} {text : String} {number : Nat}

theorem Lawful.initial : NameTable.initial.Lawful := ⟨List.nodup_singleton "", rfl⟩

theorem intern_of_getElem? (distinct : table.names.Nodup)
    (listed : table.names[number]? = some text) : table.intern text = (number, table) := by
  obtain ⟨inside, same⟩ := List.getElem?_eq_some_iff.mp listed
  have found : table.names.idxOf? text = some number := by
    rw [List.idxOf?_eq_some_iff]
    refine ⟨inside, same, fun other front equal => ?_⟩
    have indices := (distinct.getElem_inj_iff).mp (equal.trans same.symm)
    omega
  rw [intern, found]

theorem intern_of_not_mem (absent : text ∉ table.names) :
    table.intern text = (table.size, ⟨table.names ++ [text]⟩) := by
  rw [intern, List.idxOf?_eq_none_iff.mpr absent]
  rfl

/-- The number that a text gets is the place where it is listed from then on. -/
theorem Lawful.getElem?_intern (lawful : table.Lawful) (text : String) :
    (table.intern text).2.names[(table.intern text).1]? = some text := by
  by_cases known : text ∈ table.names
  · obtain ⟨number, listed⟩ := List.mem_iff_getElem?.mp known
    rw [intern_of_getElem? lawful.distinct listed]
    exact listed
  · rw [intern_of_not_mem known]
    exact List.getElem?_concat_length

theorem Lawful.intern (lawful : table.Lawful) (text : String) : (table.intern text).2.Lawful := by
  by_cases known : text ∈ table.names
  · obtain ⟨number, listed⟩ := List.mem_iff_getElem?.mp known
    rw [intern_of_getElem? lawful.distinct listed]
    exact lawful
  · rw [intern_of_not_mem known]
    refine ⟨List.nodup_append.mpr ⟨lawful.distinct, List.nodup_singleton text, ?_⟩, ?_⟩
    · intro other listed last member same
      exact known (List.mem_singleton.mp member ▸ same ▸ listed)
    · obtain ⟨inside, _⟩ := List.getElem?_eq_some_iff.mp lawful.empty
      exact (List.getElem?_append_left inside).trans lawful.empty

theorem Lawful.internAll (lawful : table.Lawful) (texts : List String) :
    (table.internAll texts).Lawful := by
  rw [NameTable.internAll]
  induction texts generalizing table with
  | nil => exact lawful
  | cons text rest ih => exact ih (lawful.intern text)

/-- Where a text is listed once it is listed for ever. -/
theorem getElem?_of_grown {later : NameTable} (grown : table.names <+: later.names)
    (listed : table.names[number]? = some text) : later.names[number]? = some text := by
  obtain ⟨inside, same⟩ := List.getElem?_eq_some_iff.mp listed
  exact (List.prefix_iff_getElem?.mp grown _ inside).trans (congrArg some same)

theorem Lawful.getElem?_internAll (lawful : table.Lawful) (text : String) (rest : List String) :
    (table.internAll (text :: rest)).names[(table.intern text).1]? = some text :=
  getElem?_of_grown (prefix_internAll _ rest) (lawful.getElem?_intern text)

/-- A text that came at some time is listed where the table of that time puts it. -/
theorem Lawful.getElem?_take (lawful : table.Lawful) {texts : List String} {index : Nat}
    (given : texts[index]? = some text) :
    (table.internAll texts).names[((table.internAll (texts.take index)).intern text).1]? =
      some text := by
  obtain ⟨inside, rfl⟩ := List.getElem?_eq_some_iff.mp given
  have split : texts.take index ++ texts[index] :: texts.drop (index + 1) = texts := by
    rw [List.cons_getElem_drop_succ, List.take_append_drop]
  have listed := (lawful.internAll (texts.take index)).getElem?_internAll texts[index]
    (texts.drop (index + 1))
  rwa [← internAll_append, split] at listed

theorem Lawful.place_unique (lawful : table.Lawful) {other : Nat}
    (listed : table.names[number]? = some text) (again : table.names[other]? = some text) :
    number = other := by
  obtain ⟨inside, _⟩ := List.getElem?_eq_some_iff.mp listed
  exact (List.getElem?_inj inside lawful.distinct).mp (listed.trans again.symm)

theorem mem_names_intern {other : String} :
    other ∈ (table.intern text).2.names ↔ other ∈ table.names ∨ other = text := by
  constructor
  · intro member
    by_cases known : text ∈ table.names
    · rw [NameTable.intern] at member
      split at member
      · exact .inl member
      · next absent => exact absurd known (List.idxOf?_eq_none_iff.mp absent)
    · rw [intern_of_not_mem known, List.mem_append, List.mem_singleton] at member
      exact member
  · rintro (listed | rfl)
    · exact (table.prefix_intern text).subset listed
    · exact table.mem_intern other

theorem mem_names_internAll {texts : List String} :
    text ∈ (table.internAll texts).names ↔ text ∈ table.names ∨ text ∈ texts := by
  rw [internAll]
  induction texts generalizing table with
  | nil => simp
  | cons first rest ih => rw [List.foldl_cons, ih, mem_names_intern, List.mem_cons, or_assoc]

/-- The table knows the texts that it was given, each once, and the empty one. -/
theorem size_internAll_initial (texts : List String) :
    (initial.internAll texts).size = ("" :: texts).toFinset.card := by
  rw [size, ← List.toFinset_card_of_nodup (Lawful.initial.internAll texts).distinct]
  congr 1
  ext text
  rw [List.mem_toFinset, List.mem_toFinset, mem_names_internAll, List.mem_cons]
  exact or_congr_left List.mem_singleton

end NameTable

namespace Interner

open NameTable

variable {interner next : Interner} {table : NameTable}

/-- An interner knows what a table knows: its texts are those of the table, and the number of a text
is the place where the table lists it. -/
structure Keeps (interner : Interner) (table : NameTable) : Prop extends table.Lawful where
  texts : interner.texts.toList = table.names
  numbers : ∀ (text : String) (number : Nat),
    interner.numbers[text]? = some number ↔ table.names[number]? = some text

namespace Keeps

theorem start : Keeps {} .initial where
  toLawful := .initial
  texts := rfl
  numbers text number := by
    rw [Std.HashMap.getElem?_insert, initial]
    cases number with
    | zero => simp
    | succ number => simp

theorem size (keeps : interner.Keeps table) : interner.size = table.size := by
  rw [Interner.size, NameTable.size, ← keeps.texts, Array.length_toList]

theorem lookup (keeps : interner.Keeps table) (number : Nat) :
    interner.lookup number = table.lookup number := by
  rw [Interner.lookup, NameTable.lookup, ← keeps.texts, Array.getElem?_toList]

theorem lookup_of_getElem? (keeps : interner.Keeps table) {number : Nat} {text : String}
    (listed : table.names[number]? = some text) : interner.lookup number = text := by
  rw [keeps.lookup, NameTable.lookup, listed, Option.getD_some]

/-- An interner numbers a text as the table does, and stays in step with it. -/
theorem intern (keeps : interner.Keeps table) (text : String)
    (room : (table.intern text).2.size ≤ capacity) :
    ∃ next, interner.intern text = some ((table.intern text).1, next) ∧
      next.Keeps (table.intern text).2 := by
  by_cases known : text ∈ table.names
  · obtain ⟨number, listed⟩ := List.mem_iff_getElem?.mp known
    rw [intern_of_getElem? keeps.distinct listed, Interner.intern, (keeps.numbers ..).mpr listed]
    exact ⟨interner, rfl, keeps⟩
  · have absent : interner.numbers[text]? = none := by
      cases found : interner.numbers[text]? with
      | none => rfl
      | some number => exact absurd (List.mem_of_getElem? ((keeps.numbers ..).mp found)) known
    have lawful := keeps.toLawful.intern text
    rw [intern_of_not_mem known] at room lawful ⊢
    have fits : table.size < capacity := by
      simpa [NameTable.size, Nat.succ_le_iff] using room
    have taken : interner.intern text = some (table.size,
        ⟨interner.numbers.insert text table.size, interner.texts.push text⟩) := by
      rw [Interner.intern, absent, keeps.size]
      exact if_pos fits
    refine ⟨_, taken, lawful, by simp [keeps.texts], fun other number => ?_⟩
    rw [Std.HashMap.getElem?_insert]
    by_cases same : text = other
    · subst same
      rw [if_pos (beq_self_eq_true text), Option.some_inj]
      refine ⟨?_, fun listed => ?_⟩
      · rintro rfl
        simp [NameTable.size]
      · exact lawful.place_unique List.getElem?_concat_length listed
    · rw [if_neg (by simpa using same), keeps.numbers, List.getElem?_append]
      split
      · exact Iff.rfl
      · next outside =>
          rw [List.getElem?_eq_none (Nat.le_of_not_lt outside)]
          simp [List.getElem?_singleton, same]

/-- Texts get the numbers of the places where the table lists them from then on. -/
theorem internAll (keeps : interner.Keeps table) (texts : List String)
    (room : (table.internAll texts).size ≤ capacity) :
    ∃ numbers last, interner.internAll texts = some (numbers, last) ∧
      last.Keeps (table.internAll texts) ∧
      List.Forall₂ (fun number text => (table.internAll texts).names[number]? = some text)
        numbers texts := by
  induction texts generalizing interner table with
  | nil => exact ⟨[], interner, rfl, keeps, .nil⟩
  | cons text rest ih =>
      have grows := (table.intern text).2.prefix_internAll rest
      obtain ⟨next, first, keepsNext⟩ := keeps.intern text (grows.length_le.trans room)
      obtain ⟨numbers, last, others, keepsLast, listed⟩ := ih keepsNext room
      refine ⟨(table.intern text).1 :: numbers, last, ?_, keepsLast, .cons ?_ listed⟩
      · simp [Interner.internAll, first, others]
      · exact keeps.toLawful.getElem?_internAll text rest

end Keeps

/-- A number that was given to a text stays with it. -/
theorem numbers_intern {text other : String} {number otherNumber : Nat}
    (taken : interner.intern text = some (number, next))
    (known : interner.numbers[other]? = some otherNumber) :
    next.numbers[other]? = some otherNumber := by
  rw [intern] at taken
  split at taken
  · cases taken
    exact known
  · next absent =>
      split at taken
      · cases taken
        rw [Std.HashMap.getElem?_insert, if_neg, known]
        intro same
        rw [eq_of_beq same, known] at absent
        cases absent
      · cases taken

/-- An end marker gets the number that its empty lexeme would get. -/
theorem internTokens_eq {tokens : List Token} (known : interner.numbers[""]? = some 0)
    (ends : ∀ token ∈ tokens, token.kind = .eof → token.lexeme = "") :
    interner.internTokens tokens = interner.internAll (tokens.map Token.lexeme) := by
  induction tokens generalizing interner with
  | nil => rfl
  | cons token rest ih =>
      obtain ⟨endsHere, endsLater⟩ := List.forall_mem_cons.mp ends
      have number : interner.internToken token = interner.intern token.lexeme := by
        rw [internToken]
        split
        · next last => rw [endsHere last, intern, known]
        · rfl
      rw [List.map_cons, internTokens, internAll, number]
      cases taken : interner.intern token.lexeme with
      | none => rfl
      | some found =>
          simp only [Option.bind_eq_bind, Option.bind_some]
          rw [ih (numbers_intern taken known) endsLater]

end Interner

def Piece.lexeme? : Piece → Option String
  | token _ lexeme => some (String.ofList lexeme)
  | _ => none

/-- What is written in a text at each of its tokens, and nothing at its end. -/
def Scan.writtenTexts (source : String) : List String :=
  (pieces source.toList).filterMap Piece.lexeme? ++ [""]

theorem Scan.map_lexeme_scan (source : String) :
    (scan source).tokens.map Token.lexeme = writtenTexts source := by
  have said := congrArg (List.map (·.2.1)) (content_scan source)
  rw [List.map_map, List.map_append, contents, List.map_filterMap] at said
  refine said.trans (congrArg (· ++ [""]) (List.filterMap_congr fun piece _ => ?_))
  cases piece <;> rfl

/-- Only at the end nothing is written. -/
theorem Scan.lexeme_eq_empty_iff {source : String} {token : Token}
    (member : token ∈ (scan source).tokens) : token.lexeme = "" ↔ token.kind = .eof := by
  have said := List.mem_map_of_mem (f := Token.content) member
  rw [content_scan, List.mem_append, List.mem_singleton] at said
  rcases said with inside | last
  · obtain ⟨piece, listed, same⟩ := List.mem_filterMap.mp inside
    cases piece with
    | blank char => cases same
    | stray fault => cases same
    | token kind lexeme =>
        obtain ⟨before, after, split⟩ := List.append_of_mem listed
        have cut := cut_pieces source.toList
        rw [split] at cut
        have spelled : Spells kind lexeme := cut.of_append_right.1.1
        obtain ⟨sameKind, said⟩ := Prod.mk.inj (Option.some.inj same)
        rw [← sameKind, ← (Prod.mk.inj said).1]
        simp [spelled.ne_eof, spelled.ne_nil]
  · obtain ⟨sameKind, said⟩ := Prod.mk.inj last
    exact iff_of_true (Prod.mk.inj said).1 sameKind

/-- Of the texts that are written only that of the end is empty. -/
theorem Scan.card_writtenTexts (source : String) :
    (writtenTexts source).toFinset.card =
      (((scan source).tokens.filter (·.kind != .eof)).map Token.lexeme).toFinset.card + 1 := by
  rw [← Finset.card_insert_of_notMem (a := "")]
  · congr 1
    ext text
    rw [← map_lexeme_scan, List.mem_toFinset, Finset.mem_insert, List.mem_toFinset]
    constructor
    · intro written
      obtain ⟨token, member, rfl⟩ := List.mem_map.mp written
      by_cases last : token.kind = .eof
      · exact .inl ((lexeme_eq_empty_iff member).mpr last)
      · exact .inr (List.mem_map_of_mem (List.mem_filter.mpr ⟨member, by simpa using last⟩))
    · rintro (rfl | inside)
      · rw [map_lexeme_scan]
        exact List.mem_append_right _ List.mem_cons_self
      · obtain ⟨token, member, rfl⟩ := List.mem_map.mp inside
        exact List.mem_map_of_mem (List.mem_filter.mp member).1
  · intro inside
    obtain ⟨token, member, nothing⟩ := List.mem_map.mp (List.mem_toFinset.mp inside)
    obtain ⟨listed, visible⟩ := List.mem_filter.mp member
    rw [(lexeme_eq_empty_iff listed).mp nothing] at visible
    cases visible

namespace Interner

open NameTable

/-- Texts were numbered one after the other by a new interner, and more may have been numbered since
by the later one. -/
structure Numbering (texts : List String) (numbers : List Nat) (interner later : Interner) :
    Prop where
  length : numbers.length = texts.length
  /-- Numbers by text and texts by number are inverse to each other. -/
  inverse : ∀ (text : String) (number : Nat),
    interner.numbers[text]? = some number ↔ interner.texts[number]? = some text
  identifies : ∀ entry ∈ numbers.zip texts, ∀ other ∈ numbers.zip texts,
    entry.1 = other.1 ↔ entry.2 = other.2
  recalls : ∀ entry ∈ numbers.zip texts,
    interner.lookup entry.1 = entry.2 ∧ later.lookup entry.1 = entry.2
  empty : ∀ entry ∈ numbers.zip texts, entry.1 = 0 ↔ entry.2 = ""
  /-- Every number is the one that a name table gives. -/
  tabled : ∀ index text, texts[index]? = some text →
    numbers[index]? = some ((NameTable.initial.internAll (texts.take index)).intern text).1
  /-- The number of a new text is the count of the texts that came before. -/
  consecutive : ∀ index text, texts[index]? = some text → text ∉ "" :: texts.take index →
    numbers[index]? = some ("" :: texts.take index).toFinset.card
  size : interner.size = ("" :: texts).toFinset.card

/-- Two texts have the same number if they are the same. -/
theorem Numbering.getElem?_eq_iff {texts : List String} {numbers : List Nat}
    {interner later : Interner} (numbering : Numbering texts numbers interner later)
    {index place : Nat} {text other : String} (here : texts[index]? = some text)
    (there : texts[place]? = some other) : numbers[index]? = numbers[place]? ↔ text = other := by
  have entry (index : Nat) (text : String) (given : texts[index]? = some text) :
      ∃ number, numbers[index]? = some number ∧ (number, text) ∈ numbers.zip texts := by
    obtain ⟨inside, _⟩ := List.getElem?_eq_some_iff.mp given
    have taken := List.getElem?_eq_getElem (numbering.length ▸ inside)
    exact ⟨_, taken, List.mem_of_getElem? (List.getElem?_zip_eq_some.mpr ⟨taken, given⟩)⟩
  obtain ⟨number, taken, member⟩ := entry index text here
  obtain ⟨otherNumber, takenToo, memberToo⟩ := entry place other there
  rw [taken, takenToo, Option.some_inj]
  exact numbering.identifies _ member _ memberToo

/-- While there are numbers left, every text gets one, and the numbers tell the texts apart. -/
theorem numbering_internAll (texts more : List String)
    (few : ("" :: (texts ++ more)).toFinset.card ≤ capacity) :
    ∃ numbers interner others later, internAll {} texts = some (numbers, interner) ∧
      interner.internAll more = some (others, later) ∧
      Numbering texts numbers interner later := by
  have room : ((NameTable.initial.internAll texts).internAll more).size ≤ capacity := by
    rwa [← internAll_append, size_internAll_initial]
  have grows := (NameTable.initial.internAll texts).prefix_internAll more
  obtain ⟨numbers, interner, first, keeps, listed⟩ :=
    Keeps.start.internAll texts (grows.length_le.trans room)
  obtain ⟨others, later, second, keepsLater, _⟩ := keeps.internAll more room
  have placed : ∀ entry ∈ numbers.zip texts,
      (NameTable.initial.internAll texts).names[entry.1]? = some entry.2 :=
    fun entry member => List.forall₂_zip listed member
  have tabled (index : Nat) (text : String) (given : texts[index]? = some text) :
      numbers[index]? = some ((NameTable.initial.internAll (texts.take index)).intern text).1 := by
    obtain ⟨inside, _⟩ := List.getElem?_eq_some_iff.mp given
    have taken := List.getElem?_eq_getElem (listed.length_eq ▸ inside)
    have here := placed (_, text)
      (List.mem_of_getElem? (List.getElem?_zip_eq_some.mpr ⟨taken, given⟩))
    exact taken.trans (congrArg some (keeps.place_unique here (Lawful.initial.getElem?_take given)))
  refine ⟨numbers, interner, others, later, first, second, listed.length_eq, ?_, ?_, ?_, ?_, tabled,
    ?_, ?_⟩
  · intro text number
    rw [keeps.numbers, ← keeps.texts, Array.getElem?_toList]
  · intro entry member other memberToo
    have here := placed entry member
    have there := placed other memberToo
    refine ⟨fun same => ?_, fun same => ?_⟩
    · rw [same, there] at here
      exact (Option.some.inj here).symm
    · rw [same] at here
      exact keeps.place_unique here there
  · intro entry member
    have here := placed entry member
    exact ⟨keeps.lookup_of_getElem? here,
      keepsLater.lookup_of_getElem? (getElem?_of_grown grows here)⟩
  · intro entry member
    have here := placed entry member
    refine ⟨fun same => ?_, fun same => ?_⟩
    · rw [same, keeps.empty] at here
      exact (Option.some.inj here).symm
    · rw [same] at here
      exact keeps.place_unique here keeps.empty
  · intro index text given fresh
    rw [tabled index text given, intern_of_not_mem, size_internAll_initial]
    rw [mem_names_internAll]
    simpa [NameTable.initial] using fresh
  · rw [keeps.size, size_internAll_initial]

/-- The tokens of a source are numbered as what is written at them. -/
theorem internTokens_scan (source : String) :
    internTokens {} (scan source).tokens = internAll {} (writtenTexts source) := by
  rw [internTokens_eq ((Keeps.start.numbers "" 0).mpr rfl), map_lexeme_scan]
  exact fun token member => (lexeme_eq_empty_iff member).mpr

/-- Numbers are given to texts for ever, to each text its own, one after the other, and zero to the
empty text.  So the tokens of a source have the same number if the same text is written at them, and
then they also count as equal; there is a number for every lexeme and one for the end. -/
theorem numbers_identify_texts (texts more : List String)
    (few : ("" :: (texts ++ more)).toFinset.card ≤ capacity) :
    (∃ numbers interner others later, internAll {} texts = some (numbers, interner) ∧
      interner.internAll more = some (others, later) ∧
      Numbering texts numbers interner later) ∧
    ∀ source : String, (writtenTexts source).toFinset.card ≤ capacity →
      ∃ names interner, internTokens {} (scan source).tokens = some (names, interner) ∧
        (∀ (index place : Nat) (token other : Token),
          (scan source).tokens[index]? = some token →
          (scan source).tokens[place]? = some other →
          (names[index]? = names[place]? ↔
            (writtenTexts source)[index]? = (writtenTexts source)[place]?) ∧
          (token.sameLexeme other = true ↔
            (writtenTexts source)[index]? = (writtenTexts source)[place]?)) ∧
        interner.size =
          (((scan source).tokens.filter (·.kind != .eof)).map Token.lexeme).toFinset.card + 1 := by
  refine ⟨numbering_internAll texts more few, fun source fewWritten => ?_⟩
  have empty : "" ∈ writtenTexts source := List.mem_append_right _ List.mem_cons_self
  have known : ("" :: writtenTexts source).toFinset = (writtenTexts source).toFinset := by
    rw [List.toFinset_cons, Finset.insert_eq_self, List.mem_toFinset]
    exact empty
  obtain ⟨names, interner, _, _, numbered, _, numbering⟩ :=
    numbering_internAll (writtenTexts source) [] (by rwa [List.append_nil, known])
  refine ⟨names, interner, (internTokens_scan source).trans numbered, ?_, ?_⟩
  · intro index place token other here there
    have written (index : Nat) (token : Token) (here : (scan source).tokens[index]? = some token) :
        (writtenTexts source)[index]? = some token.lexeme := by
      rw [← map_lexeme_scan, List.getElem?_map, here, Option.map_some]
    have one := written index token here
    have two := written place other there
    rw [numbering.getElem?_eq_iff one two, one, two, Option.some_inj, Token.sameLexeme, beq_iff_eq]
    exact ⟨Iff.rfl, Iff.rfl⟩
  · rw [numbering.size, known, card_writtenTexts]

/-- Of four texts the third repeats the first; of the tokens of an assignment the third repeats the
first. -/
theorem numbers_identify_texts_of_count :
    ("" :: (["x", "", "x", "y"] ++ ["x", "z"])).toFinset.card ≤ capacity ∧
    (∃ numbers interner others later,
      internAll {} ["x", "", "x", "y"] = some (numbers, interner) ∧
      interner.internAll ["x", "z"] = some (others, later) ∧
      Numbering ["x", "", "x", "y"] numbers interner later) ∧
    (writtenTexts "n := n + 1").toFinset.card ≤ capacity ∧
    ∃ names interner, internTokens {} (scan "n := n + 1").tokens = some (names, interner) ∧
      names[0]? = names[2]? ∧ names[0]? ≠ names[4]? ∧ interner.size = 5 := by
  have few : ("" :: (["x", "", "x", "y"] ++ ["x", "z"])).toFinset.card ≤ capacity := by decide
  have written : writtenTexts "n := n + 1" = ["n", ":=", "n", "+", "1", ""] := by
    decide +kernel
  have fewWritten : (writtenTexts "n := n + 1").toFinset.card ≤ capacity := by
    rw [written]
    decide
  obtain ⟨texts, tokens⟩ := numbers_identify_texts ["x", "", "x", "y"] ["x", "z"] few
  obtain ⟨names, interner, numbered, same, size⟩ := tokens "n := n + 1" fewWritten
  have many : 4 < (scan "n := n + 1").tokens.length := by
    have length : (scan "n := n + 1").tokens.length = 6 := by decide +kernel
    omega
  have token (index : Nat) (inside : index ≤ 4) := List.getElem?_eq_getElem
    (l := (scan "n := n + 1").tokens) (i := index) (Nat.lt_of_le_of_lt inside many)
  have again := (same 0 2 _ _ (token 0 (by decide)) (token 2 (by decide))).1
  have other := (same 0 4 _ _ (token 0 (by decide)) (token 4 (by decide))).1
  rw [written] at again other
  refine ⟨few, texts, fewWritten, names, interner, numbered, again.mpr rfl,
    other.not.mpr (by decide), ?_⟩
  · rw [size]
    decide +kernel

end Interner

end Sipl
