import Catpilot.CString.Store
import Catpilot.Checks.InOrder
import Mathlib.Data.List.ReduceOption

/-!
# The arguments of the serial bridge

`serial_bridge_commander` up to the point where it takes the streams from the CLI and starts the
service. It scans the arguments for what they begin with, so that anything may follow a name or
a rate, and it takes the second argument for a name whenever one is there.
-/

namespace Catpilot

open CString Checks

/-- `MAX_NAME_LEN`. -/
def maxNameLen : ℕ := 32

/-- The characters of `[0-9]`. -/
def isDigit (c : UInt8) : Bool := 0x30 ≤ c && c ≤ 0x39

/-- The characters of `[A-Za-z0-9]`. -/
def isAlnum (c : UInt8) : Bool :=
  0x41 ≤ c && c ≤ 0x5A || 0x61 ≤ c && c ≤ 0x7A || isDigit c

/-- `ttyS`. -/
def ttyS : List UInt8 := [0x74, 0x74, 0x79, 0x53]

/-- The names of an entry of the table `usart`. -/
structure UsartNames where
  name : List UInt8
  altName : List UInt8

/-- The table `usart` of a board. Its ports are named as terminals, and no name is a number, as far
as names are compared. -/
structure Board where
  usart : List (Option UsartNames)
  tty : ∀ u ∈ usart.reduceOption, strstr u.name ttyS ≠ none
  name : ∀ u ∈ usart.reduceOption, ((cstr u.name).take maxNameLen).all isDigit = false
  altName : ∀ u ∈ usart.reduceOption, ((cstr u.altName).take maxNameLen).all isDigit = false

/-- `board_get_tty_name`. -/
def Board.getTtyName (board : Board) (path : List UInt8) : Option (List UInt8) :=
  (board.usart.reduceOption.find? fun u =>
    strncmpEq path u.name maxNameLen || strncmpEq path u.altName maxNameLen).map UsartNames.name

/-- What `serial_bridge_commander` starts the service with. -/
structure BridgeCommand where
  ttyName1 : List UInt8
  ttyName2 : List UInt8
  baudrate1 : ℕ
  baudrate2 : ℕ
  deriving DecidableEq, Repr

/-- What `serial_bridge_commander` comes to: one of its messages, or a start of the service. -/
inductive BridgeReply where
  | help
  | tooLong
  | incorrectName
  | noName
  | wrongBaudrate
  | unknownPort
  | notTty
  | start (c : BridgeCommand)
  deriving DecidableEq, Repr

/-- What `sscanf` stores for a set of characters; nothing where it matches none. -/
def sscanfSet (accept : UInt8 → Bool) (arg : List UInt8) : List UInt8 := (cstr arg).takeWhile accept

/-- `atoi` of a string of digits. -/
def digitsValue (s : List UInt8) : ℕ := s.foldl (fun n c => 10 * n + (c.toNat - 0x30)) 0

/-- The largest `int`. -/
def intMax : ℕ := 2147483647

/-- A rate that is not refused. -/
def BaudrateOk (baudrate : ℕ) : Prop := ¬ ((1000000 < baudrate ∨ baudrate < 9600) ∧ baudrate ≠ 0)

instance (baudrate : ℕ) : Decidable (BaudrateOk baudrate) :=
  inferInstanceAs (Decidable (¬ ((1000000 < baudrate ∨ baudrate < 9600) ∧ baudrate ≠ 0)))

/-- A loop of `sscanf` into two arrays of `MAX_NAME_LEN` bytes; a string that does not fit its
array is written behind it. -/
def scanLoop (accept : UInt8 → Bool) (args : List (List UInt8)) :
    Option (Option (List (List UInt8))) :=
  checkLoop (fun arg => (sscanfSet accept arg).length < maxNameLen)
    (fun arg => sscanfSet accept arg ≠ []) (sscanfSet accept) (args.take 2)

/-- The loop of `atoi`; what it makes of a number that is no `int` is not defined. -/
def baudrateLoop (strings : List (List UInt8)) : Option (Option (List ℕ)) :=
  checkLoop (fun s => digitsValue s ≤ intMax) (fun s => BaudrateOk (digitsValue s)) digitsValue
    strings

/-- The end of `serial_bridge_commander`, from `board_get_tty_name` on. The name of the CLI port
is passed to `strcmp` also where it is a null pointer. -/
def bridgePorts (board : Board) (cliPort : List UInt8) (tty : List (List UInt8))
    (baudrate : List ℕ) : Option BridgeReply :=
  match board.getTtyName (tty.getD 0 []), board.getTtyName (tty.getD 1 []) with
  | some ttyName1, some ttyName2 =>
      if strstr ttyName1 ttyS = none ∨ strstr ttyName2 ttyS = none then some .notTty
      else
        match board.getTtyName cliPort with
        | none => none
        | some _ => some (.start ⟨ttyName1, ttyName2, baudrate.getD 0 0, baudrate.getD 1 0⟩)
  | _, _ => some .unknownPort

/-- `serial_bridge_commander`, with the arguments `argv[0]` to `argv[argc - 1]`; `none` where it
writes behind an array or does what is not defined. -/
def serialBridgeCommander (board : Board) (cliPort : List UInt8) (argv : List (List UInt8)) :
    Option BridgeReply :=
  let argc := argv.length
  let args := argv.drop 1
  if argc = 2 ∧ strncmpEq (argv.getD 1 []) [0x2D, 0x68] maxNameLen ∨ 5 < argc ∨ argc = 1 then
    some .help
  else if args.any fun arg => maxNameLen - 1 < strnlen arg (maxNameLen - 1) then some .tooLong
  else
    match scanLoop isAlnum args with
    | none => none
    | some none => some .incorrectName
    | some (some tty) =>
        if tty.length = 0 then some .noName
        else
          match scanLoop isDigit (args.drop tty.length) with
          | none => none
          | some none => some .wrongBaudrate
          | some (some strings) =>
              let tty := if tty.length = 1 then
                tty ++ [strncpy (List.replicate maxNameLen 0) cliPort maxNameLen] else tty
              match baudrateLoop strings with
              | none => none
              | some none => some .wrongBaudrate
              | some (some baudrate) => bridgePorts board cliPort tty baudrate

/-! ## The usage -/

/-- An alphanumeric port name that the board knows. -/
structure KnownPort (board : Board) (arg ttyName : List UInt8) : Prop where
  ne_nil : cstr arg ≠ []
  alnum : ∀ c ∈ cstr arg, isAlnum c
  known : board.getTtyName arg = some ttyName

/-- A decimal rate that is 0 or in 9600 to 1000000. -/
structure IsRate (arg : List UInt8) (baudrate : ℕ) : Prop where
  ne_nil : cstr arg ≠ []
  digits : ∀ c ∈ cstr arg, isDigit c
  value : digitsValue (cstr arg) = baudrate
  range : baudrate = 0 ∨ 9600 ≤ baudrate ∧ baudrate ≤ 1000000

/-- At most two rates; those that are missing are 0. -/
inductive Rates : List (List UInt8) → ℕ → ℕ → Prop
  | none : Rates [] 0 0
  | one {rate : List UInt8} {b : ℕ} : IsRate rate b → Rates [rate] b 0
  | two {rate1 rate2 : List UInt8} {b1 b2 : ℕ} :
      IsRate rate1 b1 → IsRate rate2 b2 → Rates [rate1, rate2] b1 b2

/-- The usage that `serial_bridge_help` prints: one or two names and the rates. The CLI port is
the second port of one name. -/
inductive Usage (board : Board) (cliPort : List UInt8) : List (List UInt8) → BridgeCommand → Prop
  | one {name tty1 tty2 : List UInt8} {rates : List (List UInt8)} {b1 b2 : ℕ} :
      KnownPort board name tty1 → board.getTtyName cliPort = some tty2 → Rates rates b1 b2 →
      Usage board cliPort (name :: rates) ⟨tty1, tty2, b1, b2⟩
  | two {name1 name2 tty1 tty2 : List UInt8} {rates : List (List UInt8)} {b1 b2 : ℕ} :
      KnownPort board name1 tty1 → KnownPort board name2 tty2 → Rates rates b1 b2 →
      Usage board cliPort (name1 :: name2 :: rates) ⟨tty1, tty2, b1, b2⟩

/-- The call of `serial_bridge_commander` is defined, and it starts the service with what the
arguments say by the usage, if they say anything. -/
structure FollowsUsage (board : Board) (cliPort : List UInt8) (argv : List (List UInt8)) :
    Prop where
  defined : serialBridgeCommander board cliPort argv ≠ none
  starts_iff : ∀ c, serialBridgeCommander board cliPort argv = some (.start c) ↔
    Usage board cliPort (argv.drop 1) c

/-! ## When the arguments are read so -/

/-- The number that an argument begins with. -/
def rateValue (arg : List UInt8) : ℕ := digitsValue (sscanfSet isDigit arg)

/-- The checks of the arguments, in their order. -/
def bridgeChecks (args : List (List UInt8)) : List (Prop × Prop) :=
  checks (fun arg => (sscanfSet isAlnum arg).length < maxNameLen)
      (fun arg => sscanfSet isAlnum arg ≠ []) (args.take 2) ++
    (checks (fun arg => (sscanfSet isDigit arg).length < maxNameLen)
        (fun arg => sscanfSet isDigit arg ≠ []) (args.drop 2) ++
      checks (fun arg => rateValue arg ≤ intMax) (fun arg => BaudrateOk (rateValue arg))
        (args.drop 2))

/-- What the arguments begin with is a command: the checks pass and the board knows the ports. -/
structure Begins (board : Board) (cliPort : List UInt8) (args : List (List UInt8)) : Prop where
  passes : Passes (bridgeChecks args)
  known : ∀ arg ∈ args.take 2, board.getTtyName (sscanfSet isAlnum arg) ≠ none
  second : args.length = 1 → board.getTtyName cliPort ≠ none

/-- Nothing follows what the scans match. -/
structure Whole (args : List (List UInt8)) : Prop where
  names : ∀ arg ∈ args.take 2, sscanfSet isAlnum arg = cstr arg
  rates : ∀ arg ∈ args.drop 2, sscanfSet isDigit arg = cstr arg

/-- A single name that is followed by rates, as in `serial_bridge ttyS1 9600`. -/
def NameAndRates (board : Board) (cliPort : List UInt8) (args : List (List UInt8)) : Prop :=
  ∃ name tty1 rate rates b1 b2, args = name :: rate :: rates ∧ KnownPort board name tty1 ∧
    board.getTtyName cliPort ≠ none ∧ Rates (rate :: rates) b1 b2

/-- What is asked of one to four arguments. -/
structure ReadAsMeant (board : Board) (cliPort : List UInt8) (args : List (List UInt8)) :
    Prop where
  defined : Defined (bridgeChecks args)
  whole : Begins board cliPort args → Whole args ∧ board.getTtyName cliPort ≠ none
  notNameAndRates : ¬ NameAndRates board cliPort args

section Scan

variable {board : Board} {cliPort : List UInt8} {arg ttyName : List UInt8}
  {accept : UInt8 → Bool} {baudrate b1 b2 : ℕ} {rates : List (List UInt8)}

theorem sscanfSet_eq_iff : sscanfSet accept arg = cstr arg ↔ ∀ c ∈ cstr arg, accept c :=
  List.takeWhile_eq_self_iff

theorem cstr_cstr (arg : List UInt8) : cstr (cstr arg) = cstr arg :=
  cstr_of_not_mem (not_mem_cstr arg)

/-- Names are compared as far as `MAX_NAME_LEN` bytes. -/
theorem Board.getTtyName_congr (board : Board) {s t : List UInt8}
    (h : (cstr s).take maxNameLen = (cstr t).take maxNameLen) :
    board.getTtyName s = board.getTtyName t := by
  simp only [getTtyName, strncmpEq, h]

theorem Board.getTtyName_cstr (board : Board) (s : List UInt8) :
    board.getTtyName (cstr s) = board.getTtyName s := by
  apply board.getTtyName_congr
  rw [cstr_cstr]

/-- The CLI port as it is copied to `tty[1]`. -/
theorem Board.getTtyName_strncpy (board : Board) (s : List UInt8) :
    board.getTtyName (strncpy (List.replicate maxNameLen 0) s maxNameLen) = board.getTtyName s := by
  apply board.getTtyName_congr
  have hnul : 0 ∉ (cstr s).take maxNameLen := fun h => not_mem_cstr s (List.mem_of_mem_take h)
  rw [strncpy_eq, List.drop_replicate, Nat.sub_self, List.replicate_zero, List.append_nil,
    cstr_append_replicate hnul, List.take_take, Nat.min_self]

theorem Board.mem_of_getTtyName (h : board.getTtyName arg = some ttyName) :
    ∃ u ∈ board.usart.reduceOption, u.name = ttyName ∧
      ((cstr arg).take maxNameLen = (cstr u.name).take maxNameLen ∨
        (cstr arg).take maxNameLen = (cstr u.altName).take maxNameLen) := by
  obtain ⟨u, hu, hname⟩ := Option.map_eq_some_iff.1 h
  have hmatch := List.find?_some hu
  rw [Bool.or_eq_true, strncmpEq, strncmpEq, decide_eq_true_eq, decide_eq_true_eq] at hmatch
  exact ⟨u, List.mem_of_find?_eq_some hu, hname, hmatch⟩

theorem Board.strstr_ttyS (h : board.getTtyName arg = some ttyName) :
    strstr ttyName ttyS ≠ none := by
  obtain ⟨u, hu, rfl, -⟩ := mem_of_getTtyName h
  exact board.tty u hu

/-- A number is not the name of a port. -/
theorem Board.not_digits (h : board.getTtyName arg = some ttyName) :
    ¬ ∀ c ∈ cstr arg, isDigit c := by
  intro hdigits
  have hall : ((cstr arg).take maxNameLen).all isDigit = true :=
    List.all_eq_true.2 fun c hc => hdigits c (List.mem_of_mem_take hc)
  obtain ⟨u, hu, -, heq | heq⟩ := mem_of_getTtyName h
  · rw [heq, board.name u hu] at hall
    cases hall
  · rw [heq, board.altName u hu] at hall
    cases hall

theorem knownPort_iff : KnownPort board arg ttyName ↔
    sscanfSet isAlnum arg ≠ [] ∧ sscanfSet isAlnum arg = cstr arg ∧
      board.getTtyName (sscanfSet isAlnum arg) = some ttyName := by
  constructor
  · rintro ⟨hne, halnum, hknown⟩
    have hwhole := sscanfSet_eq_iff.2 halnum
    rw [hwhole, board.getTtyName_cstr]
    exact ⟨hne, rfl, hknown⟩
  · rintro ⟨hne, hwhole, hknown⟩
    have halnum := sscanfSet_eq_iff.1 hwhole
    rw [hwhole] at hne hknown
    rw [board.getTtyName_cstr] at hknown
    exact ⟨hne, halnum, hknown⟩

theorem baudrateOk_iff : BaudrateOk baudrate ↔
    baudrate = 0 ∨ 9600 ≤ baudrate ∧ baudrate ≤ 1000000 := by
  rw [BaudrateOk]
  omega

theorem isRate_iff : IsRate arg baudrate ↔
    sscanfSet isDigit arg ≠ [] ∧ sscanfSet isDigit arg = cstr arg ∧ rateValue arg = baudrate ∧
      BaudrateOk baudrate := by
  constructor
  · rintro ⟨hne, hdigits, hvalue, hrange⟩
    have hwhole := sscanfSet_eq_iff.2 hdigits
    rw [rateValue, hwhole]
    exact ⟨hne, rfl, hvalue, baudrateOk_iff.2 hrange⟩
  · rintro ⟨hne, hwhole, hvalue, hok⟩
    have hdigits := sscanfSet_eq_iff.1 hwhole
    rw [hwhole] at hne
    rw [rateValue, hwhole] at hvalue
    exact ⟨hne, hdigits, hvalue, baudrateOk_iff.1 hok⟩

/-- The values of the rates are what they begin with. -/
theorem rates_iff : Rates rates b1 b2 ↔
    rates.length ≤ 2 ∧ (∀ r ∈ rates, IsRate r (rateValue r)) ∧
      b1 = (rates.map rateValue).getD 0 0 ∧ b2 = (rates.map rateValue).getD 1 0 := by
  have hself : ∀ {r b}, IsRate r b → IsRate r (rateValue r) ∧ b = rateValue r := by
    intro r b h
    have hvalue := (isRate_iff.1 h).2.2.1
    rw [hvalue]
    exact ⟨h, rfl⟩
  constructor
  · intro h
    cases h with
    | none => exact ⟨Nat.zero_le _, nofun, rfl, rfl⟩
    | one h =>
        refine ⟨Nat.le_succ 1, ?_, (hself h).2, rfl⟩
        intro r hr
        rw [List.mem_singleton.1 hr]
        exact (hself h).1
    | two h h' =>
        refine ⟨Nat.le_refl _, ?_, (hself h).2, (hself h').2⟩
        intro r hr
        rcases List.mem_pair.1 hr with rfl | rfl
        · exact (hself h).1
        · exact (hself h').1
  · rintro ⟨hlen, hrates, rfl, rfl⟩
    rcases rates with _ | ⟨r, _ | ⟨r', _ | ⟨r'', rest⟩⟩⟩
    · exact .none
    · exact .one (hrates r List.mem_cons_self)
    · exact .two (hrates r List.mem_cons_self)
        (hrates r' (List.mem_cons_of_mem _ List.mem_cons_self))
    · exact absurd hlen (by simp)

end Scan

/-- The names that the ports are looked up by. -/
def ttyNames (cliPort : List UInt8) (args : List (List UInt8)) : List (List UInt8) :=
  if args.length = 1 then (args.take 2).map (sscanfSet isAlnum) ++
    [strncpy (List.replicate maxNameLen 0) cliPort maxNameLen]
  else (args.take 2).map (sscanfSet isAlnum)

section Commander

variable {board : Board} {cliPort cmd : List UInt8} {args : List (List UInt8)}
  {argv : List (List UInt8)} {c : BridgeCommand}

theorem not_tooLong (args : List (List UInt8)) :
    (args.any fun arg => maxNameLen - 1 < strnlen arg (maxNameLen - 1)) = false := by
  rw [List.any_eq_false]
  intro arg _ hlong
  have hle : strnlen arg (maxNameLen - 1) ≤ maxNameLen - 1 := Nat.min_le_right _ _
  exact absurd (of_decide_eq_true hlong) (Nat.not_lt_of_le hle)

/-- The argument `-h` is no name. -/
theorem sscanfSet_help {arg : List UInt8} (h : strncmpEq arg [0x2D, 0x68] maxNameLen = true) :
    sscanfSet isAlnum arg = [] := by
  rw [strncmpEq, decide_eq_true_eq] at h
  rw [sscanfSet]
  cases hs : cstr arg with
  | nil => rfl
  | cons c s =>
      rw [hs] at h
      obtain ⟨rfl, -⟩ := List.cons.inj h
      rfl

/-- The scan of the rates and their values. -/
theorem decides_rates {Refused : BridgeReply → Prop} (hr : Refused .wrongBaudrate)
    (hlen : args.length ≤ 2) (rest : List ℕ → Option BridgeReply) :
    Decides (checks (fun arg => (sscanfSet isDigit arg).length < maxNameLen)
          (fun arg => sscanfSet isDigit arg ≠ []) args ++
        checks (fun arg => rateValue arg ≤ intMax) (fun arg => BaudrateOk (rateValue arg)) args)
      Refused (rest (args.map rateValue))
      ((scanLoop isDigit args).elim none fun strings => strings.elim (some .wrongBaudrate)
        fun strings => (baudrateLoop strings).elim none fun baudrate =>
          baudrate.elim (some .wrongBaudrate) rest) := by
  have hchecks : checks (fun arg => rateValue arg ≤ intMax)
        (fun arg => BaudrateOk (rateValue arg)) args =
      checks (fun s => digitsValue s ≤ intMax) (fun s => BaudrateOk (digitsValue s))
        (args.map (sscanfSet isDigit)) :=
    (checks_map (fun s => digitsValue s ≤ intMax) (fun s => BaudrateOk (digitsValue s))
      (sscanfSet isDigit) args).symm
  have hvalues : args.map rateValue = (args.map (sscanfSet isDigit)).map digitsValue :=
    List.map_map.symm
  rw [scanLoop, List.take_of_length_le hlen, hchecks, hvalues]
  refine Decides.append (decides_elim_checkLoop _ _ _ hr args _) ?_
  exact decides_elim_checkLoop _ _ _ hr (args.map (sscanfSet isDigit)) rest

/-- The call with one argument at least, the help apart: the scans with what they answer. -/
theorem serialBridgeCommander_eq (board : Board) (cliPort cmd : List UInt8)
    (hlen : 1 ≤ args.length ∧ args.length ≤ 4)
    (hhelp : ¬ (args.length = 1 ∧ strncmpEq (args.getD 0 []) [0x2D, 0x68] maxNameLen)) :
    serialBridgeCommander board cliPort (cmd :: args) =
      (scanLoop isAlnum args).elim none fun tty => tty.elim (some .incorrectName) fun tty =>
        if tty.length = 0 then some .noName
        else
          (scanLoop isDigit (args.drop tty.length)).elim none fun strings =>
            strings.elim (some .wrongBaudrate) fun strings =>
              (baudrateLoop strings).elim none fun baudrate =>
                baudrate.elim (some .wrongBaudrate) (bridgePorts board cliPort
                  (if tty.length = 1 then
                    tty ++ [strncpy (List.replicate maxNameLen 0) cliPort maxNameLen]
                  else tty)) := by
  have hargc : ¬ (5 < (cmd :: args).length ∨ (cmd :: args).length = 1) := by
    rw [List.length_cons]
    omega
  have hnot : ¬ ((cmd :: args).length = 2 ∧
      strncmpEq ((cmd :: args).getD 1 []) [0x2D, 0x68] maxNameLen) :=
    fun h => hhelp ⟨Nat.succ.inj h.1, h.2⟩
  rw [serialBridgeCommander, if_neg (not_or.2 ⟨hnot, hargc⟩), List.drop_one, List.tail_cons,
    not_tooLong, if_neg Bool.false_ne_true]
  rcases scanLoop isAlnum args with _ | _ | tty
  · rfl
  · rfl
  · simp only [Option.elim_some]
    congr 1
    rcases scanLoop isDigit (args.drop tty.length) with _ | _ | strings
    · rfl
    · rfl
    · simp only [Option.elim_some]
      rcases baudrateLoop strings with _ | _ | baudrate
      · rfl
      · rfl
      · rfl

/-- One to four arguments: the checks decide what comes of the call, and when they pass, the
ports do. -/
theorem decides_serialBridgeCommander (board : Board) (cliPort cmd : List UInt8)
    (hlen : 1 ≤ args.length ∧ args.length ≤ 4) :
    Decides (bridgeChecks args) (fun r => ∀ c, r ≠ .start c)
      (bridgePorts board cliPort (ttyNames cliPort args) ((args.drop 2).map rateValue))
      (serialBridgeCommander board cliPort (cmd :: args)) := by
  by_cases hhelp : args.length = 1 ∧ strncmpEq (args.getD 0 []) [0x2D, 0x68] maxNameLen
  · obtain ⟨arg, rfl⟩ := List.length_eq_one_iff.1 hhelp.1
    have hnil : sscanfSet isAlnum arg = [] := sscanfSet_help hhelp.2
    have hhelp' : serialBridgeCommander board cliPort [cmd, arg] = some .help := by
      rw [serialBridgeCommander, if_pos (Or.inl ⟨rfl, hhelp.2⟩)]
    rw [hhelp']
    refine .refused ⟨?_, fun hne => absurd hnil hne⟩ (fun hall => ?_) nofun
    · change (sscanfSet isAlnum arg).length < maxNameLen
      rw [hnil]
      decide
    · exact absurd hnil ((passes_append.1 hall).1 _ List.mem_cons_self)
  · have hlength : ((args.take 2).map (sscanfSet isAlnum)).length = min 2 args.length := by
      rw [List.length_map, List.length_take]
    have hdrop : args.drop (min 2 args.length) = args.drop 2 := by
      rcases Nat.le_total 2 args.length with hle | hle
      · rw [Nat.min_eq_left hle]
      · rw [Nat.min_eq_right hle, List.drop_length, List.drop_of_length_le hle]
    have hrates : (args.drop 2).length ≤ 2 := by
      rw [List.length_drop]
      omega
    have hone : min 2 args.length = 1 ↔ args.length = 1 := by omega
    have hpos : min 2 args.length ≠ 0 := by omega
    rw [serialBridgeCommander_eq board cliPort cmd hlen hhelp, bridgeChecks]
    refine Decides.append (decides_elim_checkLoop _ _ _ nofun (args.take 2) _) ?_
    simp only [hlength, hdrop, hone, if_neg hpos]
    exact decides_rates nofun hrates _

/-- With one name the second port is the CLI port, and with more the second name is one. -/
theorem known_iff (board : Board) (cliPort : List UInt8) (hlen : 1 ≤ args.length) :
    (∀ arg ∈ args.take 2, board.getTtyName (sscanfSet isAlnum arg) ≠ none) ∧
        (args.length = 1 → board.getTtyName cliPort ≠ none) ↔
      board.getTtyName ((ttyNames cliPort args).getD 0 []) ≠ none ∧
        board.getTtyName ((ttyNames cliPort args).getD 1 []) ≠ none := by
  rcases args with _ | ⟨a, _ | ⟨b, rates⟩⟩
  · exact absurd hlen (by simp)
  · have hcli := board.getTtyName_strncpy cliPort
    simp [ttyNames, hcli]
  · simp [ttyNames]

theorem passes_bridgeChecks : Passes (bridgeChecks args) ↔
    (∀ arg ∈ args.take 2, sscanfSet isAlnum arg ≠ []) ∧
      (∀ arg ∈ args.drop 2, sscanfSet isDigit arg ≠ []) ∧
      ∀ arg ∈ args.drop 2, BaudrateOk (rateValue arg) := by
  rw [bridgeChecks, passes_append, passes_append, Passes, Passes, Passes, checks, checks, checks,
    List.forall_mem_map, List.forall_mem_map, List.forall_mem_map]

theorem Begins.not_nameAndRates (h : Begins board cliPort args) :
    ¬ NameAndRates board cliPort args := by
  rintro ⟨name, tty1, rate, rates, b1, b2, rfl, -, -, hrates⟩
  obtain ⟨-, hrate, -⟩ := rates_iff.1 hrates
  have hdigits := (hrate rate List.mem_cons_self).digits
  have halnum : sscanfSet isAlnum rate = cstr rate := by
    rw [sscanfSet_eq_iff]
    intro c hc
    rw [isAlnum, hdigits c hc, Bool.or_true]
  have hknown := h.known rate (List.mem_cons_of_mem _ List.mem_cons_self)
  rw [halnum, board.getTtyName_cstr] at hknown
  obtain ⟨tty, htty⟩ := Option.ne_none_iff_exists'.1 hknown
  exact Board.not_digits htty hdigits

/-- Arguments that follow the usage and are no name with rates are read as a whole. -/
theorem Usage.begins (h : Usage board cliPort args c) (hrates : ¬ NameAndRates board cliPort args) :
    Begins board cliPort args ∧ Whole args := by
  cases h with
  | @one name tty1 tty2 rates b1 b2 hname hcli hb =>
      cases rates with
      | cons rate rates =>
          exact absurd ⟨name, tty1, rate, rates, b1, b2, rfl, hname, by rw [hcli]; exact nofun, hb⟩
            hrates
      | nil =>
          obtain ⟨hne, hwhole, hknown⟩ := knownPort_iff.1 hname
          refine ⟨⟨passes_bridgeChecks.2 ⟨?_, nofun, nofun⟩, ?_, fun _ => ?_⟩, ⟨?_, nofun⟩⟩
          · exact List.forall_mem_singleton.2 hne
          · exact List.forall_mem_singleton.2 (by rw [hknown]; exact nofun)
          · rw [hcli]
            exact nofun
          · exact List.forall_mem_singleton.2 hwhole
  | @two name1 name2 tty1 tty2 rates b1 b2 hname1 hname2 hb =>
      obtain ⟨hne1, hwhole1, hknown1⟩ := knownPort_iff.1 hname1
      obtain ⟨hne2, hwhole2, hknown2⟩ := knownPort_iff.1 hname2
      obtain ⟨-, hrate, -⟩ := rates_iff.1 hb
      have hboth : ∀ P : List UInt8 → Prop, P name1 → P name2 →
          ∀ arg ∈ (name1 :: name2 :: rates).take 2, P arg := fun P h1 h2 =>
        List.forall_mem_cons.2 ⟨h1, List.forall_mem_singleton.2 h2⟩
      refine ⟨⟨passes_bridgeChecks.2 ⟨?_, fun r hr => ?_, fun r hr => ?_⟩, ?_, ?_⟩,
        ⟨?_, fun r hr => ?_⟩⟩
      · exact hboth (fun arg => sscanfSet isAlnum arg ≠ []) hne1 hne2
      · exact (isRate_iff.1 (hrate r hr)).1
      · exact (isRate_iff.1 (hrate r hr)).2.2.2
      · exact hboth (fun arg => board.getTtyName (sscanfSet isAlnum arg) ≠ none)
          (by rw [hknown1]; exact nofun) (by rw [hknown2]; exact nofun)
      · exact fun hone => absurd hone (by simp)
      · exact hboth (fun arg => sscanfSet isAlnum arg = cstr arg) hwhole1 hwhole2
      · exact (isRate_iff.1 (hrate r hr)).2.1

/-- A command that is read as a whole is what the usage says of the arguments. -/
theorem Begins.usage (h : Begins board cliPort args) (hwhole : Whole args)
    (hlen : 1 ≤ args.length ∧ args.length ≤ 4) {tty1 tty2 : List UInt8}
    (htty1 : board.getTtyName ((ttyNames cliPort args).getD 0 []) = some tty1)
    (htty2 : board.getTtyName ((ttyNames cliPort args).getD 1 []) = some tty2) :
    Usage board cliPort args ⟨tty1, tty2, ((args.drop 2).map rateValue).getD 0 0,
      ((args.drop 2).map rateValue).getD 1 0⟩ := by
  obtain ⟨hname, hdigit, hok⟩ := passes_bridgeChecks.1 h.passes
  have hport : ∀ arg ∈ args.take 2, ∀ tty, board.getTtyName (sscanfSet isAlnum arg) = some tty →
      KnownPort board arg tty := fun arg harg tty htty =>
    knownPort_iff.2 ⟨hname arg harg, hwhole.names arg harg, htty⟩
  rcases args with _ | ⟨a, _ | ⟨b, rates⟩⟩
  · exact absurd hlen.1 (by simp)
  · refine .one (hport a List.mem_cons_self tty1 htty1) ?_ .none
    rw [← board.getTtyName_strncpy]
    exact htty2
  · refine .two (hport a List.mem_cons_self tty1 htty1)
      (hport b (List.mem_cons_of_mem _ List.mem_cons_self) tty2 htty2)
      (rates_iff.2 ⟨?_, ?_, rfl, rfl⟩)
    · have hle := hlen.2
      rw [List.length_cons, List.length_cons] at hle
      omega
    · exact fun r hr => isRate_iff.2 ⟨hdigit r hr, hwhole.rates r hr, rfl, hok r hr⟩

/-- What the usage says of arguments that are no name with rates is what the ports and the rates
are. -/
theorem Usage.eq_ports (h : Usage board cliPort args c)
    (hrates : ¬ NameAndRates board cliPort args) {tty1 tty2 : List UInt8}
    (htty1 : board.getTtyName ((ttyNames cliPort args).getD 0 []) = some tty1)
    (htty2 : board.getTtyName ((ttyNames cliPort args).getD 1 []) = some tty2) :
    c = ⟨tty1, tty2, ((args.drop 2).map rateValue).getD 0 0,
      ((args.drop 2).map rateValue).getD 1 0⟩ := by
  cases h with
  | @one name tty1' tty2' rates b1 b2 hname hcli hb =>
      cases rates with
      | cons rate rates =>
          exact absurd ⟨name, tty1', rate, rates, b1, b2, rfl, hname, by rw [hcli]; exact nofun, hb⟩
            hrates
      | nil =>
          obtain rfl := Option.some.inj ((knownPort_iff.1 hname).2.2.symm.trans htty1)
          rw [← board.getTtyName_strncpy] at hcli
          obtain rfl := Option.some.inj (hcli.symm.trans htty2)
          cases hb
          rfl
  | two hname1 hname2 hb =>
      obtain rfl := Option.some.inj ((knownPort_iff.1 hname1).2.2.symm.trans htty1)
      obtain rfl := Option.some.inj ((knownPort_iff.1 hname2).2.2.symm.trans htty2)
      obtain ⟨-, -, rfl, rfl⟩ := rates_iff.1 hb
      rfl

theorem Usage.length (h : Usage board cliPort args c) : 1 ≤ args.length ∧ args.length ≤ 4 := by
  cases h with
  | one _ _ hb =>
      have hle := (rates_iff.1 hb).1
      rw [List.length_cons]
      omega
  | two _ _ hb =>
      have hle := (rates_iff.1 hb).1
      rw [List.length_cons, List.length_cons]
      omega

theorem NameAndRates.usage (h : NameAndRates board cliPort args) :
    ∃ c, Usage board cliPort args c := by
  obtain ⟨name, tty1, rate, rates, b1, b2, rfl, hname, hcli, hb⟩ := h
  obtain ⟨tty2, htty2⟩ := Option.ne_none_iff_exists'.1 hcli
  exact ⟨_, .one hname htty2 hb⟩

/-- No other number of arguments starts the service. -/
theorem serialBridgeCommander_of_length (board : Board) (cliPort : List UInt8)
    {argv : List (List UInt8)} (h : argv.length < 2 ∨ 5 < argv.length) :
    ∃ r, serialBridgeCommander board cliPort argv = some r ∧ ∀ c, r ≠ .start c := by
  by_cases hhelp : 5 < argv.length ∨ argv.length = 1
  · refine ⟨.help, ?_, nofun⟩
    rw [serialBridgeCommander, if_pos (Or.inr hhelp)]
  · obtain rfl : argv = [] := List.length_eq_zero_iff.1 (by omega)
    exact ⟨.noName, rfl, nofun⟩

/-- A call that is refused follows the usage when that says nothing of the arguments. -/
theorem followsUsage_of_refused {r : BridgeReply}
    (hr : serialBridgeCommander board cliPort argv = some r) (hne : ∀ c, r ≠ .start c) :
    FollowsUsage board cliPort argv ↔ ∀ c, ¬ Usage board cliPort (argv.drop 1) c := by
  constructor
  · intro h c hc
    have hstart := (h.starts_iff c).2 hc
    rw [hr] at hstart
    exact hne c (Option.some.inj hstart)
  · intro h
    refine ⟨by rw [hr]; exact nofun, fun c => iff_of_false ?_ (h c)⟩
    rw [hr]
    exact fun heq => hne c (Option.some.inj heq)

/-- Arguments that the usage says nothing of, but what they do not begin with. -/
theorem forall_not_usage_iff (hbegins : ¬ Begins board cliPort args) :
    (∀ c, ¬ Usage board cliPort args c) ↔ ¬ NameAndRates board cliPort args := by
  constructor
  · intro h hrates
    obtain ⟨c, hc⟩ := hrates.usage
    exact h c hc
  · exact fun hrates c hc => hbegins (hc.begins hrates).1

theorem bridgePorts_of_known {tty : List (List UInt8)} {tty1 tty2 : List UInt8}
    (htty1 : board.getTtyName (tty.getD 0 []) = some tty1)
    (htty2 : board.getTtyName (tty.getD 1 []) = some tty2) (baudrate : List ℕ) :
    bridgePorts board cliPort tty baudrate = (board.getTtyName cliPort).map fun _ =>
      .start ⟨tty1, tty2, baudrate.getD 0 0, baudrate.getD 1 0⟩ := by
  simp only [bridgePorts, htty1, htty2]
  rw [if_neg (not_or.2 ⟨Board.strstr_ttyS htty1, Board.strstr_ttyS htty2⟩)]
  cases board.getTtyName cliPort with
  | none => rfl
  | some tty => rfl

theorem bridgePorts_of_unknown {tty : List (List UInt8)}
    (h : ¬ (board.getTtyName (tty.getD 0 []) ≠ none ∧ board.getTtyName (tty.getD 1 []) ≠ none))
    (baudrate : List ℕ) : bridgePorts board cliPort tty baudrate = some .unknownPort := by
  simp only [bridgePorts]
  split
  · rename_i htty1 htty2
    exact absurd ⟨by rw [htty1]; exact nofun, by rw [htty2]; exact nofun⟩ h
  · rfl

/-- The arguments that pass the checks. -/
theorem followsUsage_of_passes (hlen : 1 ≤ args.length ∧ args.length ≤ 4)
    (hdef : Defined (bridgeChecks args)) (hpass : Passes (bridgeChecks args))
    (hports : serialBridgeCommander board cliPort (cmd :: args) =
      bridgePorts board cliPort (ttyNames cliPort args) ((args.drop 2).map rateValue)) :
    FollowsUsage board cliPort (cmd :: args) ↔ ReadAsMeant board cliPort args := by
  have hknown := known_iff board cliPort hlen.1
  by_cases hboth : board.getTtyName ((ttyNames cliPort args).getD 0 []) ≠ none ∧
      board.getTtyName ((ttyNames cliPort args).getD 1 []) ≠ none
  · have hbegins : Begins board cliPort args :=
      ⟨hpass, (hknown.2 hboth).1, (hknown.2 hboth).2⟩
    have hrates := hbegins.not_nameAndRates
    obtain ⟨tty1, htty1⟩ := Option.ne_none_iff_exists'.1 hboth.1
    obtain ⟨tty2, htty2⟩ := Option.ne_none_iff_exists'.1 hboth.2
    rw [bridgePorts_of_known htty1 htty2] at hports
    cases hcli : board.getTtyName cliPort with
    | none =>
        rw [hcli] at hports
        exact iff_of_false (fun h => h.defined hports) fun h => (h.whole hbegins).2 hcli
    | some cli =>
        rw [hcli] at hports
        by_cases hwhole : Whole args
        · refine iff_of_true ⟨by rw [hports]; exact nofun, fun c => ⟨fun hc => ?_, fun hc => ?_⟩⟩
            ⟨hdef, fun _ => ⟨hwhole, by rw [hcli]; exact nofun⟩, hrates⟩
          · rw [hports] at hc
            cases hc
            exact hbegins.usage hwhole hlen htty1 htty2
          · rw [hports, Usage.eq_ports hc hrates htty1 htty2]
            rfl
        · refine iff_of_false (fun h => ?_) fun h => hwhole (h.whole hbegins).1
          have husage := (h.starts_iff _).1 hports
          exact hwhole (husage.begins hrates).2
  · have hbegins : ¬ Begins board cliPort args := fun h => hboth (hknown.1 ⟨h.known, h.second⟩)
    rw [bridgePorts_of_unknown hboth] at hports
    rw [followsUsage_of_refused hports nofun, List.drop_one, List.tail_cons,
      forall_not_usage_iff hbegins]
    exact ⟨fun h => ⟨hdef, fun hb => absurd hb hbegins, h⟩, fun h => h.notNameAndRates⟩

/-- `serial_bridge_commander` starts the service as its usage says exactly when, of one to four
arguments, the scans stay in their arrays and the numbers are of type `int`; what begins with a
command is read to its end, and the board knows the CLI port then; and there is no single name
with rates. -/
theorem followsUsage_iff (board : Board) (cliPort : List UInt8) (argv : List (List UInt8)) :
    FollowsUsage board cliPort argv ↔
      (2 ≤ argv.length → argv.length ≤ 5 → ReadAsMeant board cliPort (argv.drop 1)) := by
  by_cases hargc : 2 ≤ argv.length ∧ argv.length ≤ 5
  · have hpos : 0 < argv.length := Nat.lt_of_lt_of_le Nat.zero_lt_two hargc.1
    obtain ⟨cmd, args, rfl⟩ := List.exists_cons_of_length_pos hpos
    rw [List.length_cons] at hargc
    have hlen : 1 ≤ args.length ∧ args.length ≤ 4 := by omega
    have hone : (cmd :: args).drop 1 = args := rfl
    simp only [List.length_cons, hargc.1, hargc.2, forall_const, hone]
    have hdecides := decides_serialBridgeCommander board cliPort cmd hlen
    generalize hcall : serialBridgeCommander board cliPort (cmd :: args) = reply at hdecides
    cases hdecides with
    | undefined hdef =>
        exact iff_of_false (fun h => h.defined hcall) fun h => hdef h.defined
    | refused hdef hstop hne =>
        have hbegins : ¬ Begins board cliPort args := fun h => hstop h.passes
        rw [followsUsage_of_refused hcall hne, hone, forall_not_usage_iff hbegins]
        exact ⟨fun h => ⟨hdef, fun hb => absurd hb hbegins, h⟩, fun h => h.notNameAndRates⟩
    | passed hdef hpass => exact followsUsage_of_passes hlen hdef hpass hcall
  · obtain ⟨r, hr, hne⟩ := @serialBridgeCommander_of_length board cliPort argv (by omega)
    rw [followsUsage_of_refused hr hne]
    refine iff_of_true (fun c hc => ?_) fun h2 h5 => absurd ⟨h2, h5⟩ hargc
    have hlen := hc.length
    rw [List.length_drop] at hlen
    omega

end Commander

/-- The table `usart` of the board `cube`. -/
def cubeUsart : List (Option UsartNames) :=
  [some ⟨ttyS ++ [0x30], [0x54, 0x45, 0x4C, 0x45, 0x4D, 0x31]⟩,
    some ⟨ttyS ++ [0x31], [0x54, 0x45, 0x4C, 0x45, 0x4D, 0x32]⟩,
    some ⟨ttyS ++ [0x32], [0x47, 0x50, 0x53, 0x31]⟩,
    some ⟨ttyS ++ [0x33], [0x49, 0x4F]⟩,
    some ⟨ttyS ++ [0x34], [0x44, 0x42, 0x47]⟩,
    some ⟨ttyS ++ [0x35], [0x47, 0x50, 0x53, 0x32]⟩]

/-- The board `cube`. -/
def cubeBoard : Board := ⟨cubeUsart, by decide, by decide, by decide⟩

/-- The example `serial_bridge ttyS1 9600` of the help starts nothing. -/
theorem not_followsUsage :
    ¬ ∀ (board : Board) (cliPort : List UInt8) (argv : List (List UInt8)),
      FollowsUsage board cliPort argv := by
  intro hall
  have hname : KnownPort cubeBoard (ttyS ++ [0x31]) (ttyS ++ [0x31]) :=
    ⟨by decide, List.all_eq_true.1 (by decide), by decide⟩
  have hrate : IsRate [0x39, 0x36, 0x30, 0x30] 9600 :=
    ⟨by decide, List.all_eq_true.1 (by decide), by decide, by decide⟩
  have husage : Usage cubeBoard (ttyS ++ [0x34]) [ttyS ++ [0x31], [0x39, 0x36, 0x30, 0x30]]
      ⟨ttyS ++ [0x31], ttyS ++ [0x34], 9600, 0⟩ := .one hname (by decide) (.one hrate)
  have hstart := ((hall cubeBoard (ttyS ++ [0x34])
    [[], ttyS ++ [0x31], [0x39, 0x36, 0x30, 0x30]]).starts_iff _).2 husage
  exact absurd hstart (by decide)

end Catpilot
