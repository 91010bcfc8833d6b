import Catalog.Text.Pieces

/-!
# Options

Arguments are read one after the other. An option is named by one letter after `-` or by a name
after `--`; a letter may be followed by more letters or by its value, and a name by `=` and its
value. An argument `--` ends the options, and what is no option is a positional argument.

* `OptionRule` is an option of a command and what it sets;
* `readArguments` reads options and positional arguments in any order;
* `readOptions` reads the options before the first positional argument.
-/

namespace Catalog

/-- Why arguments are not run. -/
inductive UsageStop where
  /-- Help is asked for. -/
  | help
  /-- The arguments are wrong. -/
  | invalid
  deriving DecidableEq, Repr

/-- What an option does with the settings read so far. It fails when it may not be given. -/
inductive OptionEffect (σ : Type) where
  /-- The option stands alone. -/
  | flag (set : σ → Except UsageStop σ)
  /-- The option has a value. -/
  | value (set : String → σ → Except UsageStop σ)

/-- An option of a command. -/
structure OptionRule (σ : Type) where
  letter : Option Char
  name : String
  effect : OptionEffect σ

/-- How an argument looks. -/
inductive ArgumentShape where
  /-- The end of the options. -/
  | terminator
  /-- An option by its name, perhaps with a value. -/
  | named (name : String) (value : Option String)
  /-- Options by their letters. -/
  | letters (letters : List Char)
  /-- Anything else. -/
  | plain
  deriving DecidableEq, Repr

/-- How an argument looks. -/
def ArgumentShape.of (arg : String) : ArgumentShape :=
  match arg.toList with
  | ['-', '-'] => .terminator
  | '-' :: '-' :: cs =>
    let name := String.ofList (cs.takeWhile (· != '='))
    match cs.dropWhile (· != '=') with
    | [] => .named name none
    | _ :: value => .named name (some (String.ofList value))
  | '-' :: c :: cs => .letters (c :: cs)
  | _ => .plain

namespace OptionRule

variable {σ : Type}

/-- The option that asks for help, which every command has. -/
def help : OptionRule σ := ⟨some 'h', "help", .flag fun _ => .error .help⟩

/-- The option with a name. -/
def byName? (rules : List (OptionRule σ)) (name : String) : Option (OptionRule σ) :=
  rules.find? fun rule => rule.name == name

/-- The option with a letter. -/
def byLetter? (rules : List (OptionRule σ)) (c : Char) : Option (OptionRule σ) :=
  rules.find? fun rule => rule.letter == some c

end OptionRule

/-- What is left to do after an argument: nothing, or to set the value of an option. -/
inductive OptionRest (σ : Type) where
  | done (settings : σ)
  | awaiting (settings : σ) (set : String → σ → Except UsageStop σ)

variable {σ : Type}

/-- Reads options by their letters. The value of an option follows its letter at once, perhaps after
`=`, or is the next argument. -/
def readLetters (rules : List (OptionRule σ)) (s : σ) : List Char → Except UsageStop (OptionRest σ)
  | [] => .ok (.done s)
  | c :: cs =>
    match OptionRule.byLetter? rules c with
    | none => .error .invalid
    | some rule =>
      match rule.effect with
      | .flag set =>
        match set s with
        | .ok next => readLetters rules next cs
        | .error stop => .error stop
      | .value set =>
        match cs with
        | [] => .ok (.awaiting s set)
        | '=' :: value => .done <$> set (String.ofList value) s
        | value => .done <$> set (String.ofList value) s

/-- Reads an option by its name. -/
def readNamed (rules : List (OptionRule σ)) (s : σ) (name : String) (value : Option String) :
    Except UsageStop (OptionRest σ) :=
  match OptionRule.byName? rules name with
  | none => .error .invalid
  | some rule =>
    match rule.effect, value with
    | .flag set, none => .done <$> set s
    | .flag _, some _ => .error .invalid
    | .value set, some v => .done <$> set v s
    | .value set, none => .ok (.awaiting s set)

/-- Goes on after an argument. The value that an option awaits must not look like an option. -/
def OptionRest.finish (rest : OptionRest σ) (args : List String) :
    Except UsageStop (σ × List String) :=
  match rest, args with
  | .done s, args => .ok (s, args)
  | .awaiting _ _, [] => .error .invalid
  | .awaiting s set, value :: args =>
    if ArgumentShape.of value = .plain then
      match set value s with
      | .ok next => .ok (next, args)
      | .error stop => .error stop
    else .error .invalid

/-- Reads one option with its value, if the arguments start with one. -/
def readOption? (rules : List (OptionRule σ)) (s : σ) (arg : String) (args : List String) :
    Option (Except UsageStop (σ × List String)) :=
  match ArgumentShape.of arg with
  | .terminator | .plain => none
  | .named name value => some ((readNamed rules s name value).bind fun rest => rest.finish args)
  | .letters letters => some ((readLetters rules s letters).bind fun rest => rest.finish args)

theorem length_finish {rest : OptionRest σ} {args left : List String} {s : σ}
    (h : rest.finish args = .ok (s, left)) : left.length ≤ args.length := by
  unfold OptionRest.finish at h
  split at h
  · cases h
    exact Nat.le_refl _
  · cases h
  · split at h
    · split at h
      · cases h
        simp
      · cases h
    · cases h

theorem length_bind_finish {first : Except UsageStop (OptionRest σ)} {args left : List String}
    {s : σ} (h : (first.bind fun rest => rest.finish args) = .ok (s, left)) :
    left.length ≤ args.length := by
  cases first with
  | error _ => cases h
  | ok rest => exact length_finish h

theorem length_readOption {rules : List (OptionRule σ)} {s next : σ} {arg : String}
    {args left : List String} (h : readOption? rules s arg args = some (.ok (next, left))) :
    left.length ≤ args.length := by
  unfold readOption? at h
  split at h
  · cases h
  · cases h
  · exact length_bind_finish (Option.some.inj h)
  · exact length_bind_finish (Option.some.inj h)

/-- What follows the options of a command. -/
structure AfterOptions (σ : Type) where
  settings : σ
  /-- Whether `--` ended the options. -/
  terminated : Bool
  rest : List String

/-- Reads the options before the first positional argument. -/
def readOptions (rules : List (OptionRule σ)) (s : σ) :
    List String → Except UsageStop (AfterOptions σ)
  | [] => .ok ⟨s, false, []⟩
  | arg :: args =>
    match h : readOption? rules s arg args with
    | some (.ok (next, left)) =>
      have := length_readOption h
      readOptions rules next left
    | some (.error stop) => .error stop
    | none =>
      if ArgumentShape.of arg = .terminator then .ok ⟨s, true, args⟩
        else .ok ⟨s, false, arg :: args⟩
termination_by args => args.length
decreasing_by
  simp only [List.length_cons]
  omega

/-- Takes positional arguments, of which each has to be allowed. -/
def takePositional (take : σ → String → Except UsageStop σ) (s : σ) :
    List String → Except UsageStop σ
  | [] => .ok s
  | arg :: args => (take s arg).bind fun next => takePositional take next args

/-- Reads options and positional arguments in any order. -/
def readArguments (rules : List (OptionRule σ)) (take : σ → String → Except UsageStop σ) (s : σ) :
    List String → Except UsageStop σ
  | [] => .ok s
  | arg :: args =>
    match h : readOption? rules s arg args with
    | some (.ok (next, left)) =>
      have := length_readOption h
      readArguments rules take next left
    | some (.error stop) => .error stop
    | none =>
      if ArgumentShape.of arg = .terminator then takePositional take s args
      else
        match take s arg with
        | .ok next => readArguments rules take next args
        | .error stop => .error stop
termination_by args => args.length
decreasing_by all_goals simp only [List.length_cons]; omega

end Catalog
