import Kleym.GoString

/-!
# Command-line flags

Go's `flag` package. Arguments are read from left to right: one that does not look like a flag
ends the flags, a flag takes its value from after its equals sign or, if it has none and is not
boolean, from the next argument, and setting a flag overwrites what it was set to before. A
program registers its flags by name; what comes out is what it then sets them to, in order.

Arguments of the one form `--name=value` are `Token`s. On these the parser is transparent: it
assigns exactly what they say, and the value of a flag is what its last token says.
-/

namespace Kleym

open GoString

/-- `flag.Flag`, to the parser: whether it is boolean, and the values its `Set` accepts. -/
structure FlagDef where
  isBool : Bool
  accepts : GoString → Bool

/-- `strconv.ParseBool` accepts. -/
def parsesAsBool (s : GoString) : Bool :=
  [str "1", str "t", str "T", str "TRUE", str "true", str "True",
    str "0", str "f", str "F", str "FALSE", str "false", str "False"].elem s

/-- A flag of `flag.StringVar`. -/
def FlagDef.string : FlagDef := ⟨false, fun _ => true⟩

/-- A flag of `flag.BoolVar`. -/
def FlagDef.bool : FlagDef := ⟨true, parsesAsBool⟩

/-- The flags that are registered, by name. -/
abbrev FlagSet : Type := GoString → Option FlagDef

/-- What parsing fails with. -/
inductive FlagError : Type where
  | badSyntax (arg : GoString)
  | undefined (name : GoString)
  | help
  | needsArgument (name : GoString)
  | invalidValue (name value : GoString)
  deriving DecidableEq

/-- What an argument is to the parser. -/
inductive Argument : Type where
  /-- no flag, or the terminator `--`: the flags end here -/
  | last
  | malformed
  | flag (name : GoString) (value : Option GoString)
  deriving DecidableEq

/-- The text of a flag, cut at its first equals sign that is not its first byte. -/
def cutFlag : GoString → Argument
  | [] => .malformed
  | c :: s =>
    if c = 45 ∨ c = 61 then .malformed
    else
      match cut 61 s with
      | some (name, value) => .flag (c :: name) (some value)
      | none => .flag (c :: s) none

/-- What `parseOne` makes of an argument: a flag has one hyphen or two. -/
def readArgument : GoString → Argument
  | 45 :: 45 :: [] => .last
  | 45 :: 45 :: s => cutFlag s
  | 45 :: c :: s => cutFlag (c :: s)
  | _ => .last

/-- Set a flag, and go on. -/
def setFlag (flag : FlagDef) (name value : GoString)
    (rest : Except FlagError (List (GoString × GoString))) :
    Except FlagError (List (GoString × GoString)) :=
  if flag.accepts value then rest.map ((name, value) :: ·) else .error (.invalidValue name value)

/-- `FlagSet.Parse`: the assignments that the arguments make, in order. -/
def parseFlags (formal : FlagSet) : List GoString → Except FlagError (List (GoString × GoString))
  | [] => .ok []
  | arg :: args =>
    match readArgument arg with
    | .last => .ok []
    | .malformed => .error (.badSyntax arg)
    | .flag name value =>
      match formal name with
      | none => .error (if name = str "help" ∨ name = str "h" then .help else .undefined name)
      | some flag =>
        match value with
        | some value => setFlag flag name value (parseFlags formal args)
        | none =>
          if flag.isBool then setFlag flag name (str "true") (parseFlags formal args)
          else
            match args with
            | [] => .error (.needsArgument name)
            | value :: args => setFlag flag name value (parseFlags formal args)

/-- The variable of a flag after the assignments, from its default. -/
def flagValue (name default : GoString) (assignments : List (GoString × GoString)) : GoString :=
  assignments.foldl (fun value assignment => if assignment.1 = name then assignment.2 else value)
    default

theorem flagValue_cons (name default name' value : GoString)
    (assignments : List (GoString × GoString)) :
    flagValue name default ((name', value) :: assignments) =
      flagValue name (if name' = name then value else default) assignments := rfl

/-! ## Tokens -/

/-- An argument of the form `--name=value`. The name of a flag does not start with a hyphen
and has no equals sign in it; `flag.Var` panics at one that does. -/
structure Token where
  name : GoString
  value : GoString
  name_ne_nil : name ≠ []
  hyphen_ne : name.head? ≠ some 45
  equals_notMem : 61 ∉ name

namespace Token

/-- The argument. -/
def text (token : Token) : GoString := [45, 45] ++ token.name ++ 61 :: token.value

/-- The assignment that the argument stands for. -/
def assignment (token : Token) : GoString × GoString := (token.name, token.value)

theorem readArgument_text (token : Token) :
    readArgument token.text = .flag token.name (some token.value) := by
  obtain ⟨name, value, hne, hhyphen, hequals⟩ := token
  obtain ⟨c, s, rfl⟩ := List.exists_cons_of_ne_nil hne
  rw [List.mem_cons, not_or] at hequals
  have hc : ¬(c = 45 ∨ c = 61) := not_or.mpr ⟨fun h => hhyphen (congrArg some h), Ne.symm hequals.1⟩
  change cutFlag (c :: (s ++ 61 :: value)) = _
  rw [cutFlag, if_neg hc, cut_append hequals.2]

theorem cutPrefix_text (token : Token) {name : GoString} (hname : 61 ∉ name) :
    token.text.cutPrefix ([45, 45] ++ name ++ [61]) =
      if token.name = name then some token.value else none := by
  split_ifs with h
  · rw [cutPrefix_eq_some, text, h, List.append_assoc, List.append_assoc, List.append_assoc]
    rfl
  · rw [Option.eq_none_iff_forall_ne_some]
    intro rest hrest
    rw [cutPrefix_eq_some, text, List.append_assoc, List.append_assoc, List.append_assoc,
      List.append_cancel_left_eq] at hrest
    exact h (append_sep_inj token.equals_notMem hname hrest).1

end Token

/-- The values that tokens give a flag, in order. -/
def valuesOf (name : GoString) (tokens : List Token) : List GoString :=
  (tokens.filter fun token => token.name = name).map Token.value

theorem valuesOf_cons (name : GoString) (token : Token) (tokens : List Token) :
    valuesOf name (token :: tokens) =
      if token.name = name then token.value :: valuesOf name tokens else valuesOf name tokens := by
  rw [valuesOf, List.filter_cons]
  split_ifs with h <;> simp_all [valuesOf]

theorem setFlag_eq_ok {flag : FlagDef} {name value : GoString}
    {rest : Except FlagError (List (GoString × GoString))}
    {assignments : List (GoString × GoString)} :
    setFlag flag name value rest = .ok assignments ↔ flag.accepts value = true ∧
      ∃ others, rest = .ok others ∧ assignments = (name, value) :: others := by
  rw [setFlag]
  cases rest <;> split_ifs with h <;> simp [h, Except.map, eq_comm]

/-- One token, and what comes after it. -/
theorem parseFlags_token {formal : FlagSet} {token : Token} {args : List GoString}
    {assignments : List (GoString × GoString)} :
    parseFlags formal (token.text :: args) = .ok assignments ↔
      (∃ flag, formal token.name = some flag ∧ flag.accepts token.value = true) ∧
        ∃ others, parseFlags formal args = .ok others ∧
          assignments = token.assignment :: others := by
  rw [parseFlags, token.readArgument_text]
  dsimp only
  cases formal token.name with
  | none => simp
  | some flag => simp only [setFlag_eq_ok, Option.some.injEq, exists_eq_left', Token.assignment]

/-- Tokens are parsed one by one: parsing succeeds when every flag is registered and accepts
its value, and assigns what the tokens say. -/
theorem parseFlags_tokens {formal : FlagSet} {tokens : List Token}
    {assignments : List (GoString × GoString)} :
    parseFlags formal (tokens.map Token.text) = .ok assignments ↔
      (∀ token ∈ tokens, ∃ flag, formal token.name = some flag ∧ flag.accepts token.value = true) ∧
        assignments = tokens.map Token.assignment := by
  induction tokens generalizing assignments with
  | nil =>
    rw [List.map_nil, parseFlags, Except.ok.injEq]
    exact ⟨fun h => ⟨List.forall_mem_nil _, h.symm⟩, fun h => h.2.symm⟩
  | cons token tokens ih =>
    rw [List.map_cons, parseFlags_token, List.forall_mem_cons, and_assoc]
    refine and_congr_right fun _ => ?_
    constructor
    · rintro ⟨others, hothers, rfl⟩
      obtain ⟨haccepted, rfl⟩ := ih.mp hothers
      exact ⟨haccepted, rfl⟩
    · rintro ⟨haccepted, rfl⟩
      exact ⟨tokens.map Token.assignment, ih.mpr ⟨haccepted, rfl⟩, rfl⟩

/-- The value of a flag is what its last token says. -/
theorem flagValue_tokens (name default : GoString) (tokens : List Token) :
    flagValue name default (tokens.map Token.assignment) =
      (valuesOf name tokens).getLast?.getD default := by
  induction tokens generalizing default with
  | nil => rfl
  | cons token tokens ih =>
    rw [List.map_cons, Token.assignment, flagValue_cons, ih, valuesOf_cons]
    split_ifs
    · rw [List.getLast?_cons, Option.getD_some]
    · rfl

end Kleym
