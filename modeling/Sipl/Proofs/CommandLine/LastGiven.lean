import Mathlib.Data.List.Induction
import Mathlib.Data.List.TakeWhile
import Sipl.CommandLine.Command

namespace Sipl

/-- The options there are. -/
inductive Flag where
  | maxDepth
  | format
  | color
  | notes
  deriving DecidableEq

namespace Flag

def word : Flag → String
  | maxDepth => "max-depth"
  | format => "format"
  | color => "color"
  | notes => "notes"

/-- What stands in front of the value of an option. -/
def lead (flag : Flag) : List Char := ("--" ++ flag.word ++ "=").toList

/-- The value that an argument gives for an option, if it does. -/
def given? (flag : Flag) (argument : String) : Option String :=
  if argument = "--" ++ flag.word then
    some ""
  else if flag.lead.isPrefixOf argument.toList then
    some (String.ofList (argument.toList.drop flag.lead.length))
  else
    none

/-- The value that is given last. -/
def last? (flag : Flag) (arguments : List String) : Option String :=
  (arguments.filterMap flag.given?).getLast?

/-- Which values an option takes, and what they ask for. -/
inductive Takes : Flag → String → Setting → Prop where
  | maxDepth {sign digits : List Char} (signed : sign = [] ∨ sign = ['+']) (some : digits ≠ [])
      (decimal : ∀ digit ∈ digits, Scan.isDigit digit = true) (positive : 0 < Scan.decimal digits)
      (bounded : Scan.decimal digits ≤ Options.largestNumber) :
      Takes maxDepth (String.ofList (sign ++ digits)) (.depth (Scan.decimal digits))
  | text : Takes format "text" (.format .text)
  | json : Takes format "json" (.format .json)
  | auto : Takes color "auto" (.color .auto)
  | always : Takes color "always" (.color .always)
  | never : Takes color "never" (.color .never)
  | notes : Takes notes "" .notes

end Flag

namespace Options

def isOption (argument : String) : Bool := ['-', '-'].isPrefixOf argument.toList

def positionalOf (arguments : List String) : List String :=
  arguments.filter fun argument => !isOption argument

/-- What options say about a flag. -/
def setting? (options : Options) : Flag → Option Setting
  | .maxDepth => some (.depth options.depth)
  | .format => some (.format options.format)
  | .color => some (.color options.color)
  | .notes => if options.notes then some .notes else none

/-- Why an argument is refused. -/
inductive Refused (argument : String) : CommandError → Prop where
  | value {flag : Flag} {value : String} (given : flag.given? argument = some value)
      (valued : flag ≠ .notes) (wrong : ∀ setting, ¬ flag.Takes value setting) :
      Refused argument (.invalidValue ("--" ++ flag.word) value)
  | unknown (option : isOption argument = true)
      (unknown : ∀ (flag : Flag) (value : String), flag.given? argument = some value →
        flag = .notes ∧ value ≠ "") :
      Refused argument (.unknownOption argument)

/-- The options of an argument list are its other arguments, in order, and the setting that is given
last for each flag, or else the one from the start. -/
structure Reflects (arguments : List String) (options : Options) : Prop where
  positional : options.positional = positionalOf arguments
  given : ∀ flag value, Flag.last? flag arguments = some value →
    ∃ setting, flag.Takes value setting ∧ options.setting? flag = some setting
  absent : ∀ flag, Flag.last? flag arguments = none →
    options.setting? flag = ({} : Options).setting? flag

end Options

namespace Flag

variable {flag other : Flag} {argument value : String} {setting : Setting}

theorem given?_eq_some_iff : flag.given? argument = some value ↔
    argument = "--" ++ flag.word ∧ value = "" ∨
      argument = "--" ++ flag.word ++ "=" ++ value := by
  rw [given?]
  split
  · next bare =>
      constructor
      · rintro ⟨⟩
        exact .inl ⟨bare, rfl⟩
      · rintro (⟨_, rfl⟩ | valued)
        · rfl
        · -- An option without a value is shorter than one with a value.
          have lengths := congrArg (·.toList.length) (bare.symm.trans valued)
          simp only [String.toList_append, List.length_append] at lengths
          have equals : "=".toList.length = 1 := rfl
          omega
  · next valued =>
      have whole : argument = "--" ++ flag.word ++ "=" ++ value ↔
          argument.toList = flag.lead ++ value.toList := by
        rw [← String.toList_inj, String.toList_append, lead]
      rw [whole]
      split
      · next starts =>
          obtain ⟨rest, same⟩ := List.isPrefixOf_iff_prefix.mp starts
          rw [← same, List.drop_left, Option.some.injEq, List.append_cancel_left_eq,
            ← String.toList_inj, String.toList_ofList]
          exact ⟨.inr, fun given => given.resolve_left fun bare => valued bare.1⟩
      · next other =>
          refine ⟨nofun, ?_⟩
          rintro (⟨bare, _⟩ | same)
          · exact absurd bare valued
          · exact absurd (List.isPrefixOf_iff_prefix.mpr ⟨_, same.symm⟩) other

theorem isOption_of_given? (given : flag.given? argument = some value) :
    Options.isOption argument = true := by
  rcases given?_eq_some_iff.mp given with ⟨rfl, _⟩ | rfl <;>
    simp [Options.isOption, String.toList_append]

/-- What stands in front of the first equals sign is the name of the flag. -/
theorem given?_iff_splitFlag {chars : List Char} (option : argument.toList = '-' :: '-' :: chars) :
    flag.given? argument = some value ↔ Options.splitFlag chars = (flag.word, value) := by
  have plain : ∀ char ∈ flag.word.toList, (char != '=') = true :=
    List.all_eq_true.mp (by cases flag <;> rfl)
  have whole (text : String) : argument = "--" ++ text ↔ chars = text.toList := by
    rw [← String.toList_inj, option, String.toList_append]
    simp
  rw [given?_eq_some_iff, String.append_assoc, String.append_assoc, whole, whole, Options.splitFlag,
    Prod.mk.injEq]
  constructor
  · rintro (⟨rfl, rfl⟩ | rfl)
    · rw [List.takeWhile_eq_self_iff.mpr plain, List.dropWhile_eq_nil_iff.mpr plain]
      exact ⟨String.ofList_toList, rfl⟩
    · rw [String.toList_append, String.toList_append, List.takeWhile_append_of_pos plain,
        List.dropWhile_append_of_pos plain]
      simp
  · rintro ⟨named, rfl⟩
    have joined := List.takeWhile_append_dropWhile (p := (· != '=')) (l := chars)
    rw [← named, String.toList_append, String.toList_ofList, String.toList_append,
      String.toList_ofList]
    cases behind : chars.dropWhile (· != '=') with
    | nil =>
        rw [behind, List.append_nil] at joined
        exact .inl ⟨joined.symm, rfl⟩
    | cons char rest =>
        have stop := List.head?_dropWhile_not (· != '=') chars
        rw [behind] at stop joined
        obtain rfl : char = '=' := by simpa using stop
        right
        rw [String.toList_ofList]
        exact joined.symm

theorem eq_of_given? {given : String} (first : flag.given? argument = some value)
    (second : other.given? argument = some given) : other = flag ∧ given = value := by
  obtain ⟨chars, option⟩ : ∃ chars, argument.toList = '-' :: '-' :: chars := by
    obtain ⟨chars, whole⟩ := List.isPrefixOf_iff_prefix.mp (isOption_of_given? first)
    exact ⟨chars, whole.symm⟩
  have same := (given?_iff_splitFlag option).mp second
  rw [(given?_iff_splitFlag option).mp first, Prod.mk.injEq] at same
  refine ⟨?_, same.2.symm⟩
  have words := same.1
  revert words
  cases flag <;> cases other <;> decide

/-- What a value asks for. -/
def setting? (value : String) : Flag → Option Setting
  | maxDepth => (Options.depthOfText? value).map .depth
  | format => (OutputFormat.ofText? value).map .format
  | color => (ColorMode.ofText? value).map .color
  | notes => if value.isEmpty then some .notes else none

theorem depthOfText?_eq_some_iff {limit : Nat} : Options.depthOfText? value = some limit ↔
    Takes maxDepth value (.depth limit) := by
  have checked (digits : List Char) : (if !digits.isEmpty && digits.all Scan.isDigit &&
        0 < Scan.decimal digits && Scan.decimal digits ≤ Options.largestNumber
      then some (Scan.decimal digits) else none) = some limit ↔
      digits ≠ [] ∧ (∀ digit ∈ digits, Scan.isDigit digit = true) ∧ 0 < Scan.decimal digits ∧
        Scan.decimal digits ≤ Options.largestNumber ∧ Scan.decimal digits = limit := by
    simp [and_assoc]
  constructor
  · intro valid
    rw [← String.ofList_toList (s := value)]
    rw [Options.depthOfText?] at valid
    split at valid
    · next digits spelled =>
        obtain ⟨some, decimal, positive, bounded, rfl⟩ := (checked digits).mp valid
        rw [spelled]
        exact @Takes.maxDepth ['+'] digits (.inr rfl) some decimal positive bounded
    · obtain ⟨some, decimal, positive, bounded, rfl⟩ := (checked value.toList).mp valid
      exact @Takes.maxDepth [] value.toList (.inl rfl) some decimal positive bounded
  · rintro ⟨signed, some, decimal, positive, bounded⟩
    next sign digits =>
      have valid := (checked digits).mpr ⟨some, decimal, positive, bounded, rfl⟩
      rw [Options.depthOfText?, String.toList_ofList]
      rcases signed with rfl | rfl
      · split
        · next others spelled =>
            -- A plus sign is not a digit.
            have first : '+' ∈ digits := by
              rw [show digits = _ from spelled]
              exact List.mem_cons_self
            cases decimal '+' first
        · exact valid
      · exact valid

theorem takes_iff : flag.Takes value setting ↔ flag.setting? value = some setting := by
  cases flag with
  | maxDepth =>
      rw [setting?, Option.map_eq_some_iff]
      constructor
      · intro takes
        obtain ⟨limit, rfl⟩ : ∃ limit, setting = .depth limit := by cases takes; exact ⟨_, rfl⟩
        exact ⟨limit, depthOfText?_eq_some_iff.mpr takes, rfl⟩
      · rintro ⟨limit, valid, rfl⟩
        exact depthOfText?_eq_some_iff.mp valid
  | format =>
      rw [setting?, Option.map_eq_some_iff]
      constructor
      · rintro ⟨⟩ <;> exact ⟨_, rfl, rfl⟩
      · rintro ⟨chosen, known, rfl⟩
        unfold OutputFormat.ofText? at known
        split at known <;> cases known
        · exact .text
        · exact .json
  | color =>
      rw [setting?, Option.map_eq_some_iff]
      constructor
      · rintro ⟨⟩ <;> exact ⟨_, rfl, rfl⟩
      · rintro ⟨chosen, known, rfl⟩
        unfold ColorMode.ofText? at known
        split at known <;> cases known
        · exact .auto
        · exact .always
        · exact .never
  | notes =>
      rw [setting?]
      constructor
      · rintro ⟨⟩
        rfl
      · split
        · next empty =>
            rintro ⟨⟩
            obtain rfl := String.isEmpty_iff.mp empty
            exact .notes
        · nofun

theorem Takes.unique {more : Setting} (first : flag.Takes value setting)
    (second : flag.Takes value more) : more = setting :=
  Option.some.inj ((takes_iff.mp second).symm.trans (takes_iff.mp first))

end Flag

namespace Options

open Sipl.Flag

variable {argument : String} {arguments : List String} {options : Options}

theorem add_of_not_isOption (plain : isOption argument = false) (options : Options) :
    options.add argument = .ok { options with positional := options.positional ++ [argument] } := by
  rw [add]
  split
  · next chars spelled =>
      rw [isOption, spelled] at plain
      cases plain
  · rfl

/-- A setting is made if the value that is given for a flag is taken. -/
theorem settingOf_of_given? {flag : Flag} {value : String} {chars : List Char}
    (given : splitFlag chars = (flag.word, value)) :
    settingOf argument chars =
      match flag.setting? value with
      | some setting => .ok setting
      | none =>
        .error (if flag = .notes then .unknownOption argument
          else .invalidValue ("--" ++ flag.word) value) := by
  rw [settingOf, given]
  cases flag with
  | maxDepth =>
      simp only [word, Flag.setting?]
      cases depthOfText? value <;> rfl
  | format =>
      simp only [word, Flag.setting?]
      cases OutputFormat.ofText? value <;> rfl
  | color =>
      simp only [word, Flag.setting?]
      cases ColorMode.ofText? value <;> rfl
  | notes =>
      simp only [word, Flag.setting?]
      cases value.isEmpty <;> rfl

theorem settingOf_of_unknown {chars : List Char}
    (unknown : ∀ flag : Flag, flag.word ≠ (splitFlag chars).1) :
    settingOf argument chars = .error (.unknownOption argument) := by
  rw [settingOf]
  simp only
  split
  · next name => exact absurd name.symm (unknown .maxDepth)
  · next name => exact absurd name.symm (unknown .format)
  · next name => exact absurd name.symm (unknown .color)
  · next name => exact absurd name.symm (unknown .notes)
  · rfl

/-- An option is heeded if it gives a value that is taken, and refused otherwise. -/
theorem add_of_isOption (option : isOption argument = true) :
    (∃ flag value setting, Flag.given? flag argument = some value ∧ flag.Takes value setting ∧
      ∀ options : Options, options.add argument = .ok (options.set setting)) ∨
      ∃ error, Refused argument error ∧
        ∀ options : Options, options.add argument = .error error := by
  obtain ⟨chars, whole⟩ := List.isPrefixOf_iff_prefix.mp option
  have spelled : argument.toList = '-' :: '-' :: chars := whole.symm
  have added (options : Options) :
      options.add argument = (settingOf argument chars).map options.set := by
    simp only [add, spelled]
  by_cases named : ∃ flag : Flag, flag.word = (splitFlag chars).1
  · obtain ⟨flag, named⟩ := named
    have split : splitFlag chars = (flag.word, (splitFlag chars).2) := by rw [named]
    have given := (given?_iff_splitFlag spelled).mpr split
    have set : settingOf argument chars = _ := settingOf_of_given? split
    cases taken : flag.setting? (splitFlag chars).2 with
    | some setting =>
        rw [taken] at set
        exact .inl ⟨flag, _, setting, given, takes_iff.mpr taken,
          fun options => by rw [added, set]; rfl⟩
    | none =>
        rw [taken] at set
        refine .inr ⟨_, ?_, fun options => by rw [added, set]; rfl⟩
        have wrong (setting : Setting) : ¬ flag.Takes (splitFlag chars).2 setting := by
          rw [takes_iff, taken]
          nofun
        split
        · next bare =>
            subst bare
            refine .unknown option fun other value also => ?_
            obtain ⟨rfl, rfl⟩ := eq_of_given? given also
            exact ⟨rfl, fun empty => wrong .notes (empty ▸ .notes)⟩
        · next valued => exact .value given valued wrong
  · have unknown (flag : Flag) : flag.word ≠ (splitFlag chars).1 := fun same => named ⟨flag, same⟩
    refine .inr ⟨_, ?_, fun options => by rw [added, settingOf_of_unknown unknown]; rfl⟩
    refine .unknown option fun flag value given => absurd ?_ (unknown flag)
    rw [(given?_iff_splitFlag spelled).mp given]

theorem Refused.not_takes {error : CommandError} (refused : Refused argument error) {flag : Flag}
    {value : String} (given : flag.given? argument = some value) (setting : Setting) :
    ¬ flag.Takes value setting := by
  intro takes
  cases refused with
  | value other _ wrong =>
      obtain ⟨rfl, rfl⟩ := eq_of_given? other given
      exact wrong setting takes
  | unknown _ unknown =>
      obtain ⟨rfl, some⟩ := unknown flag value given
      cases takes
      exact some rfl

theorem Refused.unique {error other : CommandError} (first : Refused argument error)
    (second : Refused argument other) : other = error := by
  cases first with
  | value given valued _ =>
      cases second with
      | value also _ _ =>
          obtain ⟨rfl, rfl⟩ := eq_of_given? given also
          rfl
      | unknown _ unknown => exact absurd (unknown _ _ given).1 valued
  | unknown _ unknown =>
      cases second with
      | value also valued _ => exact absurd (unknown _ _ also).1 valued
      | unknown => rfl

theorem add_eq_error_iff {error : CommandError} :
    options.add argument = .error error ↔ Refused argument error := by
  constructor
  · intro failed
    cases option : isOption argument with
    | false =>
        rw [add_of_not_isOption option] at failed
        cases failed
    | true =>
        rcases add_of_isOption option with ⟨_, _, _, _, _, heeded⟩ | ⟨reason, refused, known⟩
        · cases (heeded options).symm.trans failed
        · cases (known options).symm.trans failed
          exact refused
  · intro refused
    have option : isOption argument = true := by
      cases refused with
      | value given => exact isOption_of_given? given
      | unknown option => exact option
    rcases add_of_isOption option with ⟨_, _, setting, given, takes, _⟩ | ⟨reason, other, known⟩
    · exact absurd takes (refused.not_takes given setting)
    · rw [known, refused.unique other]

theorem setting?_set_self {flag : Flag} {value : String} {setting : Setting}
    (takes : flag.Takes value setting) (options : Options) :
    (options.set setting).setting? flag = some setting := by
  cases takes <;> rfl

theorem setting?_set_of_ne {flag other : Flag} {value : String} {setting : Setting}
    (takes : flag.Takes value setting) (different : other ≠ flag) (options : Options) :
    (options.set setting).setting? other = options.setting? other := by
  cases takes <;> cases other <;> first | rfl | exact absurd rfl different

theorem positional_set (options : Options) (setting : Setting) :
    (options.set setting).positional = options.positional := by
  cases setting <;> rfl

/-- Options are known by their other arguments and by what they say about each flag. -/
theorem ext_setting? {first second : Options} (positional : first.positional = second.positional)
    (settings : ∀ flag, first.setting? flag = second.setting? flag) : first = second := by
  have depth := settings .maxDepth
  have format := settings .format
  have color := settings .color
  have notes := settings .notes
  obtain ⟨_, _, notes₁, _, _⟩ := first
  obtain ⟨_, _, notes₂, _, _⟩ := second
  simp only [setting?, Option.some.injEq, Setting.depth.injEq, Setting.format.injEq,
    Setting.color.injEq] at depth format color notes
  cases notes₁ <;> cases notes₂ <;> simp_all

theorem last?_concat (flag : Flag) (arguments : List String) (argument : String) :
    flag.last? (arguments ++ [argument]) =
      (flag.given? argument).or (flag.last? arguments) := by
  rw [Flag.last?, List.filterMap_append, List.getLast?_append, Flag.last?]
  cases given : flag.given? argument <;> simp [given]

theorem ofArguments_concat (arguments : List String) (argument : String) :
    ofArguments (arguments ++ [argument]) = (ofArguments arguments).bind (·.add argument) := by
  rw [ofArguments, List.foldlM_append, ← ofArguments]
  cases ofArguments arguments with
  | error => rfl
  | ok options =>
      show [argument].foldlM add options = options.add argument
      rw [List.foldlM_cons]
      exact bind_pure _

theorem Reflects.add {after : Options} (reflects : Reflects arguments options)
    (added : options.add argument = .ok after) : Reflects (arguments ++ [argument]) after := by
  cases option : isOption argument with
  | false =>
      rw [add_of_not_isOption option] at added
      cases added
      have silent (flag : Flag) : flag.last? (arguments ++ [argument]) = flag.last? arguments := by
        rw [last?_concat]
        cases given : flag.given? argument with
        | none => rfl
        | some value => cases option.symm.trans (isOption_of_given? given)
      refine ⟨?_, fun flag value => ?_, fun flag => ?_⟩
      · simp [positionalOf, option, reflects.positional]
      · rw [silent]
        exact reflects.given flag value
      · rw [silent]
        exact reflects.absent flag
  | true =>
      rcases add_of_isOption option with ⟨flag, value, setting, given, takes, heeded⟩ |
        ⟨error, _, known⟩
      · cases (heeded options).symm.trans added
        have others {other : Flag} (different : other ≠ flag) :
            other.last? (arguments ++ [argument]) = other.last? arguments := by
          rw [last?_concat]
          cases also : other.given? argument with
          | none => rfl
          | some value => exact absurd (eq_of_given? given also).1 different
        have own : flag.last? (arguments ++ [argument]) = some value := by
          rw [last?_concat, given, Option.some_or]
        refine ⟨?_, fun other last found => ?_, fun other missing => ?_⟩
        · rw [positional_set, reflects.positional]
          simp [positionalOf, option]
        · by_cases same : other = flag
          · subst same
            cases own.symm.trans found
            exact ⟨setting, takes, setting?_set_self takes options⟩
          · rw [others same] at found
            rw [setting?_set_of_ne takes same]
            exact reflects.given other last found
        · have different : other ≠ flag := by
            rintro rfl
            cases own.symm.trans missing
          rw [others different] at missing
          rw [setting?_set_of_ne takes different]
          exact reflects.absent other missing
      · cases (known options).symm.trans added

theorem ofArguments_ok (read : ofArguments arguments = .ok options) :
    Reflects arguments options ∧ ∀ argument ∈ arguments, ∀ error, ¬ Refused argument error := by
  induction arguments using List.reverseRecOn generalizing options with
  | nil =>
      cases read
      exact ⟨⟨rfl, nofun, fun _ _ => rfl⟩, nofun⟩
  | append_singleton front last ih =>
      rw [ofArguments_concat] at read
      cases before : ofArguments front with
      | error reason => rw [before] at read; cases read
      | ok earlier =>
          rw [before] at read
          have added : earlier.add last = .ok options := read
          obtain ⟨reflects, accepted⟩ := ih before
          refine ⟨reflects.add added, fun argument member error refused => ?_⟩
          rcases List.mem_append.mp member with member | member
          · exact accepted argument member error refused
          · cases List.mem_singleton.mp member
            cases added.symm.trans (add_eq_error_iff.mpr refused)

theorem first_refused {error : CommandError} (failed : ofArguments arguments = .error error) :
    ∃ front argument rest, arguments = front ++ argument :: rest ∧
      (∀ earlier ∈ front, ∀ other, ¬ Refused earlier other) ∧ Refused argument error := by
  induction arguments using List.reverseRecOn with
  | nil => cases failed
  | append_singleton front last ih =>
      rw [ofArguments_concat] at failed
      cases before : ofArguments front with
      | error reason =>
          rw [before] at failed
          cases failed
          obtain ⟨first, argument, rest, rfl, accepted, refused⟩ := ih before
          exact ⟨first, argument, rest ++ [last], by simp, accepted, refused⟩
      | ok options =>
          rw [before] at failed
          exact ⟨front, last, [], rfl, (ofArguments_ok before).2, add_eq_error_iff.mp failed⟩

/-- A list is accepted if none of its arguments is refused. -/
theorem exists_ofArguments
    (accepted : ∀ argument ∈ arguments, ∀ error, ¬ Refused argument error) :
    ∃ options, ofArguments arguments = .ok options := by
  cases read : ofArguments arguments with
  | ok options => exact ⟨options, rfl⟩
  | error error =>
      obtain ⟨front, argument, rest, rfl, _, refused⟩ := first_refused read
      exact absurd refused (accepted argument (by simp) error)

theorem ofArguments_eq_error_iff {error : CommandError} :
    ofArguments arguments = .error error ↔
      ∃ front argument rest, arguments = front ++ argument :: rest ∧
        (∀ earlier ∈ front, ∀ other, ¬ Refused earlier other) ∧ Refused argument error := by
  refine ⟨first_refused, ?_⟩
  rintro ⟨front, argument, rest, rfl, accepted, refused⟩
  obtain ⟨options, before⟩ := exists_ofArguments accepted
  rw [ofArguments, List.foldlM_append, ← ofArguments, before]
  show (argument :: rest).foldlM add options = .error error
  rw [List.foldlM_cons, add_eq_error_iff.mpr refused]
  rfl

theorem Reflects.unique {more : Options} {others : List String}
    (first : Reflects arguments options) (second : Reflects others more)
    (positional : positionalOf others = positionalOf arguments)
    (last : ∀ flag : Flag, flag.last? others = flag.last? arguments) : more = options := by
  refine ext_setting? ?_ fun flag => ?_
  · rw [second.positional, positional, first.positional]
  · cases given : flag.last? arguments with
    | none => rw [second.absent flag ((last flag).trans given), first.absent flag given]
    | some value =>
        obtain ⟨setting, takes, held⟩ := first.given flag value given
        obtain ⟨other, also, tells⟩ := second.given flag value ((last flag).trans given)
        rw [held, tells, takes.unique also]

theorem depth_bounds (reflects : Reflects arguments options) :
    1 ≤ options.depth ∧ options.depth ≤ largestNumber := by
  cases given : Flag.maxDepth.last? arguments with
  | none =>
      have start := reflects.absent .maxDepth given
      simp only [setting?, Option.some.injEq, Setting.depth.injEq] at start
      rw [start]
      decide
  | some value =>
      obtain ⟨setting, takes, held⟩ := reflects.given .maxDepth value given
      cases takes with
      | maxDepth _ _ _ positive bounded =>
          simp only [setting?, Option.some.injEq, Setting.depth.injEq] at held
          rw [held]
          exact ⟨positive, bounded⟩

/-- An argument list is read to the arguments that are no options, in order, and to the setting that
is given last for each flag, or else the one from the start.  Another list that has the same of both
is read to the same options, unless one of its arguments is refused: then, and only then, a list is
answered by the error of the first one that is.  Programs are never run without a limit on calls. -/
theorem ofArguments_keeps_last (arguments : List String) :
    (∀ options, ofArguments arguments = .ok options →
      Reflects arguments options ∧
        (1 ≤ options.depth ∧ options.depth ≤ largestNumber ∧
          ∀ terminal path, ∃ answer, ∀ fuel source,
            Action.run.respond fuel terminal options path source =
              (runSource fuel (some options.depth) source).map answer) ∧
        ∀ others, positionalOf others = positionalOf arguments →
          (∀ flag : Flag, flag.last? others = flag.last? arguments) →
          (ofArguments others = .ok options ↔
            ∀ argument ∈ others, ∀ error, ¬ Refused argument error)) ∧
      ∀ error, ofArguments arguments = .error error ↔
        ∃ front argument rest, arguments = front ++ argument :: rest ∧
          (∀ earlier ∈ front, ∀ other, ¬ Refused earlier other) ∧ Refused argument error := by
  refine ⟨fun options read => ?_, fun error => ofArguments_eq_error_iff⟩
  obtain ⟨reflects, _⟩ := ofArguments_ok read
  obtain ⟨positive, bounded⟩ := depth_bounds reflects
  refine ⟨reflects, ⟨positive, bounded, fun _ _ => ⟨_, fun _ _ => rfl⟩⟩, ?_⟩
  intro others positional last
  refine ⟨fun also => (ofArguments_ok also).2, fun accepted => ?_⟩
  obtain ⟨more, also⟩ := exists_ofArguments accepted
  rw [also, reflects.unique (ofArguments_ok also).1 positional last]

theorem ofArguments_keeps_last_of_mixed :
    let arguments := ["--notes", "a.sipl", "--max-depth=9", "--max-depth=+07", "b.sipl"]
    let others := ["--max-depth=+07", "a.sipl", "--notes=", "b.sipl"]
    let options : Options := { depth := 7, notes := true, positional := ["a.sipl", "b.sipl"] }
    ofArguments arguments = .ok options ∧ Reflects arguments options ∧ 1 ≤ options.depth ∧
      ofArguments others = .ok options := by
  intro arguments others options
  have read : ofArguments arguments = .ok options := by decide
  obtain ⟨reflects, ⟨positive, _⟩, again⟩ := (ofArguments_keeps_last arguments).1 options read
  refine ⟨read, reflects, positive, (again others (by decide) ?_).mpr ?_⟩
  · intro flag
    cases flag <;> decide
  · have other : ofArguments others = .ok options := by decide
    exact (ofArguments_ok other).2

/-- A value that is not valid is refused, though a later one would count instead of it. -/
theorem overridden_value_is_refused :
    let arguments := ["--max-depth=5"]
    let others := ["--max-depth=0", "--max-depth=5"]
    ofArguments arguments = .ok { depth := 5 } ∧ positionalOf others = positionalOf arguments ∧
      (∀ flag : Flag, flag.last? others = flag.last? arguments) ∧
      ofArguments others = .error (.invalidValue "--max-depth" "0") := by
  refine ⟨by decide, by decide, fun flag => ?_, by decide⟩
  cases flag <;> decide

end Options

end Sipl
