import Catpilot.Ctlst.Adxrs450
import Catpilot.Transition.Poll

/-!
# The self test of the ADXRS450

The test asks the gyroscope for its output until the status bits of a response say that its
self check is on, and then until they say that it is off. Each of the two loops stops after five
responses, and the test takes a loop that has had five responses for one that has not found what
it looks for.
-/

namespace Catpilot

open Transition

/-! ## The source -/

/-- `ADXRS450_OUTPUT_GET_ST_BITS`. -/
def adxrs450OutputGetStBits (v : BitVec 32) : BitVec 32 := v >>> 26 &&& 0x3

/-- `ADXRS450_OUTPUT_GET_ST_SELFTEST`. -/
def adxrs450OutputGetStSelftest : BitVec 32 := 2

/-- `ADXRS450_OUTPUT_GET_ST_DATA`. -/
def adxrs450OutputGetStData : BitVec 32 := 1

/-- `ADXRS450_OUTPUT_CST_BIT_MASK`: the bits of PLL, Q, NVM, POR, PWR and CST. -/
def adxrs450OutputCstBitMask : BitVec 32 :=
  (1 : BitVec 32) <<< 7 ||| (1 : BitVec 32) <<< 6 ||| (1 : BitVec 32) <<< 5 |||
    (1 : BitVec 32) <<< 4 ||| (1 : BitVec 32) <<< 3 ||| (1 : BitVec 32) <<< 2

/-- `ADXRS450_REG_ADDRESS_TEM`. -/
def adxrs450RegAddressTem : BitVec 32 := 0x02

/-- `ST_EN_MAX`. -/
def stEnMax : ℕ := 5

/-- The words of a field of 64 bits. -/
def dwordWords (v : BitVec 64) : List (BitVec 32) := [v.setWidth 32, (v >>> 32).setWidth 32]

section Source

variable {σ : Type*} (fcnavSpiTrans : List (BitVec 32) → σ → List (BitVec 32) × σ)

/-- An interaction that sends `tx` and has its response in the words from `place` on. -/
def adxrsInteract (tx : List (BitVec 32)) (place : ℕ) (s : σ) :
    Except AdxrsStatus (BitVec 32) × σ :=
  let rx := fcnavSpiTrans tx s
  let tresp := spiPdcExtractDword (rx.1.getD (place + 1) 0 ++ rx.1.getD place 0)
  (if adxrs450ParityCheck32 tresp ≠ .eok then .error .eio else .ok tresp, rx.2)

/-- `adxrs450_interact`, with a dummy word after each request. -/
def adxrs450Interact (cs dummyCs : BitVec 32) (req : BitVec 64) :
    σ → Except AdxrsStatus (BitVec 32) × σ :=
  adxrsInteract fcnavSpiTrans
    (dwordWords req ++ [spiPdcTransDummy dummyCs] ++
      dwordWords (adxrs450RegRead cs adxrs450RegAddressTem) ++ [spiPdcTransDummy dummyCs]) 3

/-- `fc_dxrs450_interact`, without dummy words. -/
def fcDxrs450Interact (cs _dummyCs : BitVec 32) (req : BitVec 64) :
    σ → Except AdxrsStatus (BitVec 32) × σ :=
  adxrsInteract fcnavSpiTrans
    (dwordWords req ++ dwordWords (fcDxrs450RegRead cs adxrs450RegAddressTem)) 2

/-- What the test returns and stores. -/
structure AdxrsTest (σ : Type*) where
  status : AdxrsStatus
  stCheckResult : Option (BitVec 16)
  stResult : Option (BitVec 16)
  state : σ

variable (asserted notAsserted : σ → Except AdxrsStatus (BitVec 32) × σ)
  (hasCheck hasResult : Bool)

/-- A loop of the test, after `en` responses. -/
def adxrsPollSt (next : σ → Except AdxrsStatus (BitVec 32) × σ) (st : BitVec 32) (en : ℕ)
    (s : σ) : Except AdxrsStatus (ℕ × BitVec 32) × σ :=
  match next s with
  | (.error rv, s) => (.error rv, s)
  | (.ok out, s) =>
      if adxrs450OutputGetStBits out ≠ st ∧ en + 1 < stEnMax then adxrsPollSt next st (en + 1) s
      else (.ok (en + 1, out), s)
termination_by stEnMax - en

/-- The fault bits of a response. -/
def adxrsFaults (out : BitVec 32) : BitVec 16 := (out &&& adxrs450OutputCstBitMask).setWidth 16

/-- The test, from what the two loops ask for. The pointers to its results are null unless
`hasCheck` and `hasResult`. -/
def adxrsTestFaults (s : σ) : AdxrsTest σ :=
  match adxrsPollSt asserted adxrs450OutputGetStSelftest 0 s with
  | (.error rv, s) => ⟨rv, none, none, s⟩
  | (.ok (en, outChkAsserted), s) =>
      if stEnMax ≤ en then ⟨.etime, none, none, s⟩
      else
        let stCheckResult := if hasCheck then some (adxrsFaults outChkAsserted) else none
        match adxrsPollSt notAsserted adxrs450OutputGetStData 0 s with
        | (.error rv, s) => ⟨rv, stCheckResult, none, s⟩
        | (.ok (en, outChkNotAsserted), s) =>
            if stEnMax ≤ en then ⟨.etime, stCheckResult, none, s⟩
            else ⟨.eok, stCheckResult,
              if hasResult then some (adxrsFaults outChkNotAsserted) else none, s⟩

/-- What `adxrs450_test_faults` asks for with the self check asserted. -/
def adxrs450Asserted (cs dummyCs : BitVec 32) : σ → Except AdxrsStatus (BitVec 32) × σ :=
  adxrs450Interact fcnavSpiTrans cs dummyCs (adxrs450ReadOutputChk cs 0)

/-- What it asks for with the self check not asserted. -/
def adxrs450NotAsserted (cs dummyCs : BitVec 32) : σ → Except AdxrsStatus (BitVec 32) × σ :=
  adxrs450Interact fcnavSpiTrans cs dummyCs (adxrs450ReadOutput cs 0)

/-- `adxrs450_test_faults`. -/
def adxrs450TestFaults (cs dummyCs : BitVec 32) (s : σ) : AdxrsTest σ :=
  adxrsTestFaults (adxrs450Asserted fcnavSpiTrans cs dummyCs)
    (adxrs450NotAsserted fcnavSpiTrans cs dummyCs) hasCheck hasResult s

/-- What `fc_dxrs450_test_faults` asks for with the self check asserted. -/
def fcDxrs450Asserted (cs dummyCs : BitVec 32) : σ → Except AdxrsStatus (BitVec 32) × σ :=
  fcDxrs450Interact fcnavSpiTrans cs dummyCs (fcDxrs450ReadOutputChk cs 0)

/-- What it asks for with the self check not asserted. -/
def fcDxrs450NotAsserted (cs dummyCs : BitVec 32) : σ → Except AdxrsStatus (BitVec 32) × σ :=
  fcDxrs450Interact fcnavSpiTrans cs dummyCs (fcDxrs450ReadOutput cs 0)

/-- `fc_dxrs450_test_faults`. -/
def fcDxrs450TestFaults (cs dummyCs : BitVec 32) (s : σ) : AdxrsTest σ :=
  adxrsTestFaults (fcDxrs450Asserted fcnavSpiTrans cs dummyCs)
    (fcDxrs450NotAsserted fcnavSpiTrans cs dummyCs) hasCheck hasResult s

end Source

/-! ## The loops -/

section Loops

variable {σ : Type*} {next : σ → Except AdxrsStatus (BitVec 32) × σ} {st : BitVec 32} {s : σ}

/-- A response has the status bits that a loop looks for. -/
def HasSt (st out : BitVec 32) : Prop := adxrs450OutputGetStBits out = st

instance (st out : BitVec 32) : Decidable (HasSt st out) :=
  inferInstanceAs (Decidable (adxrs450OutputGetStBits out = st))

theorem adxrsPollSt_of_error {en : ℕ} {e : AdxrsStatus} (h : (next s).1 = .error e) :
    adxrsPollSt next st en s = (.error e, (next s).2) := by
  rw [adxrsPollSt, ← Prod.mk.eta (p := next s), h]

theorem adxrsPollSt_of_good {en : ℕ} {b : BitVec 32} (h : (next s).1 = .ok b)
    (hb : HasSt st b) : adxrsPollSt next st en s = (.ok (en + 1, b), (next s).2) := by
  rw [adxrsPollSt, ← Prod.mk.eta (p := next s), h]
  exact if_neg fun hmore => hmore.1 hb

theorem adxrsPollSt_of_last {en : ℕ} {b : BitVec 32} (h : (next s).1 = .ok b)
    (hen : stEnMax ≤ en + 1) : adxrsPollSt next st en s = (.ok (en + 1, b), (next s).2) := by
  rw [adxrsPollSt, ← Prod.mk.eta (p := next s), h]
  exact if_neg fun hmore => absurd hmore.2 (Nat.not_lt.2 hen)

theorem adxrsPollSt_of_again {en : ℕ} {b : BitVec 32} (h : (next s).1 = .ok b)
    (hb : ¬ HasSt st b) (hen : en + 1 < stEnMax) :
    adxrsPollSt next st en s = adxrsPollSt next st (en + 1) (next s).2 := by
  rw [adxrsPollSt, ← Prod.mk.eta (p := next s), h]
  exact if_pos ⟨hb, hen⟩

/-- A loop ends with the first good response. -/
theorem adxrsPollSt_of_firstGood {en i : ℕ} {b : BitVec 32}
    (h : FirstGood next (HasSt st) s i b) (hi : en + i < stEnMax) :
    adxrsPollSt next st en s = (.ok (en + i + 1, b), afterResponses next (i + 1) s) := by
  induction i generalizing s en with
  | zero =>
      obtain ⟨hok, hb⟩ := firstGood_zero_iff.1 h
      exact adxrsPollSt_of_good hok hb
  | succ i ih =>
      obtain ⟨⟨c, hok, hc⟩, hrest⟩ := firstGood_succ_iff.1 h
      rw [adxrsPollSt_of_again hok hc (by omega), ih hrest (by omega), Nat.add_right_comm en 1 i]
      rfl

/-- A loop ends with the first error. -/
theorem adxrsPollSt_of_firstFailure {en i : ℕ} {e : AdxrsStatus}
    (h : FirstFailure next (HasSt st) s i e) (hi : en + i < stEnMax) :
    adxrsPollSt next st en s = (.error e, afterResponses next (i + 1) s) := by
  induction i generalizing s en with
  | zero => exact adxrsPollSt_of_error (firstFailure_zero_iff.1 h)
  | succ i ih =>
      obtain ⟨⟨c, hok, hc⟩, hrest⟩ := firstFailure_succ_iff.1 h
      rw [adxrsPollSt_of_again hok hc (by omega), ih hrest (by omega)]
      rfl

/-- A loop that finds nothing ends with its last response. -/
theorem adxrsPollSt_of_passesOver {en n : ℕ} (h : PassesOver next (HasSt st) s (n + 1))
    (hn : en + n + 1 = stEnMax) :
    ∃ b, adxrsPollSt next st en s = (.ok (stEnMax, b), afterResponses next (n + 1) s) := by
  induction n generalizing s en with
  | zero =>
      obtain ⟨⟨b, hok, hb⟩, -⟩ := passesOver_succ_iff.1 h
      refine ⟨b, ?_⟩
      rw [adxrsPollSt_of_last hok hn.ge, ← hn]
      rfl
  | succ n ih =>
      obtain ⟨⟨c, hok, hc⟩, hrest⟩ := passesOver_succ_iff.1 h
      obtain ⟨b, hb⟩ := ih hrest (by omega : en + 1 + n + 1 = stEnMax)
      refine ⟨b, ?_⟩
      rw [adxrsPollSt_of_again hok hc (by omega), hb]
      rfl

end Loops

/-! ## The test -/

section Test

variable {σ : Type*} (asserted notAsserted : σ → Except AdxrsStatus (BitVec 32) × σ)
  (hasCheck hasResult : Bool) (s : σ)

/-- The first response with the self check asserted that has its status bits. -/
def FirstAsserted (i : ℕ) (b : BitVec 32) : Prop :=
  FirstGood asserted (HasSt adxrs450OutputGetStSelftest) s i b

/-- After `n` responses with the self check asserted, the first one with the self check not
asserted that has its status bits. -/
def FirstNotAsserted (n j : ℕ) (c : BitVec 32) : Prop :=
  FirstGood notAsserted (HasSt adxrs450OutputGetStData)
    (afterResponses asserted n s) j c

/-- After `n` responses with the self check asserted, none of the following ones has its status
bits. -/
def NoneNotAsserted (n : ℕ) : Prop :=
  PassesOver notAsserted (HasSt adxrs450OutputGetStData)
    (afterResponses asserted n s) stEnMax

/-- The verdict of the test is that of the responses: a time out when one of the two phases has
none with its status bits, the error of a transfer, and else the fault bits of the first
response of each phase that has them. -/
structure AdxrsTestRight (test : AdxrsTest σ) : Prop where
  etime : test.status = .etime ↔
    PassesOver asserted (HasSt adxrs450OutputGetStSelftest) s stEnMax ∨
      ∃ i < stEnMax, ∃ b, FirstAsserted asserted s i b ∧
        NoneNotAsserted asserted notAsserted s (i + 1)
  failed : ∀ i < stEnMax, ∀ e,
    FirstFailure asserted (HasSt adxrs450OutputGetStSelftest) s i e →
      test.status = e
  failedAfter : ∀ i < stEnMax, ∀ b, FirstAsserted asserted s i b → ∀ j < stEnMax, ∀ e,
    FirstFailure notAsserted (HasSt adxrs450OutputGetStData)
      (afterResponses asserted (i + 1) s) j e →
        test.status = e
  eok : ∀ i < stEnMax, ∀ b, FirstAsserted asserted s i b → ∀ j < stEnMax, ∀ c,
    FirstNotAsserted asserted notAsserted s (i + 1) j c →
      test.status = .eok ∧
      test.stCheckResult =
        (if hasCheck then some (adxrsFaults b) else none) ∧
      test.stResult =
        (if hasResult then some (adxrsFaults c) else none)

/-- In neither phase is the first response with its status bits the last one that is asked for.
It may be in the first phase when the second one has none. -/
def AdxrsTestFits : Prop :=
  (∀ b, FirstAsserted asserted s (stEnMax - 1) b → NoneNotAsserted asserted notAsserted s stEnMax) ∧
    ∀ i < stEnMax - 1, ∀ b, FirstAsserted asserted s i b →
      ∀ c, ¬ FirstNotAsserted asserted notAsserted s (i + 1) (stEnMax - 1) c

variable {asserted notAsserted hasCheck hasResult s}

/-! ### What the test does -/

theorem adxrsTestFaults_of_firstFailure {i : ℕ} {e : AdxrsStatus} (hi : i < stEnMax)
    (h : FirstFailure asserted (HasSt adxrs450OutputGetStSelftest) s i e) :
    (adxrsTestFaults asserted notAsserted hasCheck hasResult s).status = e := by
  have hpoll := adxrsPollSt_of_firstFailure h (by rwa [Nat.zero_add] : 0 + i < stEnMax)
  rw [adxrsTestFaults, hpoll]

theorem adxrsTestFaults_of_passesOver
    (h : PassesOver asserted (HasSt adxrs450OutputGetStSelftest) s stEnMax) :
    (adxrsTestFaults asserted notAsserted hasCheck hasResult s).status = .etime := by
  obtain ⟨b, hpoll⟩ := adxrsPollSt_of_passesOver h (by decide : 0 + 4 + 1 = stEnMax)
  rw [adxrsTestFaults, hpoll]
  rfl

/-- The last response of the first phase is a time out also when it is good. -/
theorem adxrsTestFaults_of_last {b : BitVec 32}
    (h : FirstAsserted asserted s (stEnMax - 1) b) :
    (adxrsTestFaults asserted notAsserted hasCheck hasResult s).status = .etime := by
  have hpoll := adxrsPollSt_of_firstGood h (by decide : 0 + (stEnMax - 1) < stEnMax)
  rw [adxrsTestFaults, hpoll]
  rfl

section SecondPhase

variable {i : ℕ} {b : BitVec 32} (hi : i < stEnMax - 1) (h : FirstAsserted asserted s i b)

include hi h

/-- The first phase of a test that goes on to the second one. -/
theorem adxrsPollSt_of_firstAsserted :
    adxrsPollSt asserted adxrs450OutputGetStSelftest 0 s =
        (.ok (0 + i + 1, b), afterResponses asserted (i + 1) s) ∧
      ¬ stEnMax ≤ 0 + i + 1 := by
  have hlt : 0 + i < stEnMax := by omega
  exact ⟨adxrsPollSt_of_firstGood h hlt, by omega⟩

theorem adxrsTestFaults_of_error {e : AdxrsStatus} {s' : σ}
    (herror : adxrsPollSt notAsserted adxrs450OutputGetStData 0
      (afterResponses asserted (i + 1) s) = (.error e, s')) :
    adxrsTestFaults asserted notAsserted hasCheck hasResult s =
      ⟨e, if hasCheck then some (adxrsFaults b) else none, none, s'⟩ := by
  obtain ⟨hpoll, hmore⟩ := adxrsPollSt_of_firstAsserted hi h
  rw [adxrsTestFaults, hpoll]
  dsimp only
  rw [if_neg hmore, herror]

theorem adxrsTestFaults_of_ok {en : ℕ} {c : BitVec 32} {s' : σ}
    (hok : adxrsPollSt notAsserted adxrs450OutputGetStData 0
      (afterResponses asserted (i + 1) s) = (.ok (en, c), s')) :
    adxrsTestFaults asserted notAsserted hasCheck hasResult s =
      if stEnMax ≤ en then ⟨.etime, if hasCheck then some (adxrsFaults b) else none, none, s'⟩
      else ⟨.eok, if hasCheck then some (adxrsFaults b) else none,
        if hasResult then some (adxrsFaults c) else none, s'⟩ := by
  obtain ⟨hpoll, hmore⟩ := adxrsPollSt_of_firstAsserted hi h
  rw [adxrsTestFaults, hpoll]
  dsimp only
  rw [if_neg hmore, hok]

theorem adxrsTestFaults_of_firstFailure_after {j : ℕ} {e : AdxrsStatus} (hj : j < stEnMax)
    (h' : FirstFailure notAsserted (HasSt adxrs450OutputGetStData)
      (afterResponses asserted (i + 1) s) j e) :
    (adxrsTestFaults asserted notAsserted hasCheck hasResult s).status = e := by
  rw [adxrsTestFaults_of_error hi h
    (adxrsPollSt_of_firstFailure h' (by rwa [Nat.zero_add] : 0 + j < stEnMax))]

theorem adxrsTestFaults_of_none (h' : NoneNotAsserted asserted notAsserted s (i + 1)) :
    (adxrsTestFaults asserted notAsserted hasCheck hasResult s).status = .etime := by
  obtain ⟨c, hpoll⟩ := adxrsPollSt_of_passesOver h' (by decide : 0 + 4 + 1 = stEnMax)
  rw [adxrsTestFaults_of_ok hi h hpoll, if_pos le_rfl]

theorem adxrsTestFaults_of_last_after {c : BitVec 32}
    (h' : FirstNotAsserted asserted notAsserted s (i + 1) (stEnMax - 1) c) :
    (adxrsTestFaults asserted notAsserted hasCheck hasResult s).status = .etime := by
  rw [adxrsTestFaults_of_ok hi h
    (adxrsPollSt_of_firstGood h' (by decide : 0 + (stEnMax - 1) < stEnMax)), if_pos (by decide)]

theorem adxrsTestFaults_of_firstGood {j : ℕ} {c : BitVec 32} (hj : j < stEnMax - 1)
    (h' : FirstNotAsserted asserted notAsserted s (i + 1) j c) :
    (adxrsTestFaults asserted notAsserted hasCheck hasResult s).status = .eok ∧
      (adxrsTestFaults asserted notAsserted hasCheck hasResult s).stCheckResult =
        (if hasCheck then some (adxrsFaults b) else none) ∧
      (adxrsTestFaults asserted notAsserted hasCheck hasResult s).stResult =
        (if hasResult then some (adxrsFaults c) else none) := by
  have hlt : 0 + j < stEnMax := by omega
  have hmore : ¬ stEnMax ≤ 0 + j + 1 := by omega
  rw [adxrsTestFaults_of_ok hi h (adxrsPollSt_of_firstGood h' hlt), if_neg hmore]
  exact ⟨rfl, rfl, rfl⟩

end SecondPhase

/-! ### The verdict -/

/-- A test whose first phase finds a response is right when it is right about the second one. -/
theorem AdxrsTestRight.of_firstAsserted {i : ℕ} {b : BitVec 32} (hi : i < stEnMax)
    (h : FirstAsserted asserted s i b)
    (hetime : (adxrsTestFaults asserted notAsserted hasCheck hasResult s).status = .etime ↔
      NoneNotAsserted asserted notAsserted s (i + 1))
    (hfailed : ∀ j < stEnMax, ∀ e,
      FirstFailure notAsserted (HasSt adxrs450OutputGetStData)
        (afterResponses asserted (i + 1) s) j e →
          (adxrsTestFaults asserted notAsserted hasCheck hasResult s).status = e)
    (heok : ∀ j < stEnMax, ∀ c, FirstNotAsserted asserted notAsserted s (i + 1) j c →
      (adxrsTestFaults asserted notAsserted hasCheck hasResult s).status = .eok ∧
      (adxrsTestFaults asserted notAsserted hasCheck hasResult s).stCheckResult =
        (if hasCheck then some (adxrsFaults b) else none) ∧
      (adxrsTestFaults asserted notAsserted hasCheck hasResult s).stResult =
        (if hasResult then some (adxrsFaults c) else none)) :
    AdxrsTestRight asserted notAsserted hasCheck hasResult s
      (adxrsTestFaults asserted notAsserted hasCheck hasResult s) where
  etime := by
    rw [hetime]
    constructor
    · intro hnone
      exact Or.inr ⟨i, hi, b, h, hnone⟩
    · rintro (hpass | ⟨i', -, b', h', hnone⟩)
      · exact absurd hi (Nat.not_lt.2 (h.le_of_passesOver hpass))
      · rwa [(h.unique h').1]
  failed := fun _ _ _ hfail => absurd hfail h.not_firstFailure
  failedAfter := by
    intro i' _ b' h'
    rw [← (h.unique h').1]
    exact hfailed
  eok := by
    intro i' _ b' h'
    rw [← (h.unique h').1, ← (h.unique h').2]
    exact heok

theorem AdxrsTestRight.of_none {i : ℕ} {b : BitVec 32} (hi : i < stEnMax)
    (h : FirstAsserted asserted s i b) (hnone : NoneNotAsserted asserted notAsserted s (i + 1))
    (hstatus : (adxrsTestFaults asserted notAsserted hasCheck hasResult s).status = .etime) :
    AdxrsTestRight asserted notAsserted hasCheck hasResult s
      (adxrsTestFaults asserted notAsserted hasCheck hasResult s) := by
  apply AdxrsTestRight.of_firstAsserted hi h
  · exact iff_of_true hstatus hnone
  · intro j hj e hfail
    exact absurd hj (Nat.not_lt.2 (hfail.le_of_passesOver hnone))
  · intro j hj c hgood
    exact absurd hj (Nat.not_lt.2 (FirstGood.le_of_passesOver hgood hnone))

theorem AdxrsTestRight.of_passesOver
    (h : PassesOver asserted (HasSt adxrs450OutputGetStSelftest) s stEnMax) :
    AdxrsTestRight asserted notAsserted hasCheck hasResult s
      (adxrsTestFaults asserted notAsserted hasCheck hasResult s) where
  etime := iff_of_true (adxrsTestFaults_of_passesOver h) (Or.inl h)
  failed := fun _ hi _ hfail => absurd hi (Nat.not_lt.2 (hfail.le_of_passesOver h))
  failedAfter := fun _ hi _ hgood => absurd hi (Nat.not_lt.2 (FirstGood.le_of_passesOver hgood h))
  eok := fun _ hi _ hgood => absurd hi (Nat.not_lt.2 (FirstGood.le_of_passesOver hgood h))

theorem AdxrsTestRight.of_firstFailure {i : ℕ} {e : AdxrsStatus} (hi : i < stEnMax)
    (h : FirstFailure asserted (HasSt adxrs450OutputGetStSelftest) s i e)
    (he : e ≠ .etime) : AdxrsTestRight asserted notAsserted hasCheck hasResult s
      (adxrsTestFaults asserted notAsserted hasCheck hasResult s) where
  etime := by
    rw [adxrsTestFaults_of_firstFailure hi h]
    apply iff_of_false he
    rintro (hpass | ⟨i', -, b, hgood, -⟩)
    · exact absurd hi (Nat.not_lt.2 (h.le_of_passesOver hpass))
    · exact FirstGood.not_firstFailure hgood h
  failed := by
    intro i' _ e' hfail
    rw [adxrsTestFaults_of_firstFailure hi h, (h.unique hfail).2]
  failedAfter := fun _ _ _ hgood => absurd h (FirstGood.not_firstFailure hgood)
  eok := fun _ _ _ hgood => absurd h (FirstGood.not_firstFailure hgood)

section SecondPhase

variable {i : ℕ} {b : BitVec 32} (hi : i < stEnMax - 1) (h : FirstAsserted asserted s i b)

include hi h

theorem AdxrsTestRight.of_firstFailure_after {j : ℕ} {e : AdxrsStatus} (hj : j < stEnMax)
    (h' : FirstFailure notAsserted (HasSt adxrs450OutputGetStData)
      (afterResponses asserted (i + 1) s) j e)
    (he : e ≠ .etime) : AdxrsTestRight asserted notAsserted hasCheck hasResult s
      (adxrsTestFaults asserted notAsserted hasCheck hasResult s) := by
  have hstatus : (adxrsTestFaults asserted notAsserted hasCheck hasResult s).status = e :=
    adxrsTestFaults_of_firstFailure_after hi h hj h'
  apply AdxrsTestRight.of_firstAsserted (Nat.lt_of_lt_of_le hi (Nat.sub_le stEnMax 1)) h
  · rw [hstatus]
    apply iff_of_false he
    intro hnone
    exact absurd hj (Nat.not_lt.2 (h'.le_of_passesOver hnone))
  · intro j' _ e' hfail
    rw [hstatus, (h'.unique hfail).2]
  · intro j' _ c hgood
    exact absurd h' (FirstGood.not_firstFailure hgood)

theorem AdxrsTestRight.of_firstGood {j : ℕ} {c : BitVec 32} (hj : j < stEnMax - 1)
    (h' : FirstNotAsserted asserted notAsserted s (i + 1) j c) :
    AdxrsTestRight asserted notAsserted hasCheck hasResult s
      (adxrsTestFaults asserted notAsserted hasCheck hasResult s) := by
  have hlt : j < stEnMax := Nat.lt_of_lt_of_le hj (Nat.sub_le stEnMax 1)
  have heok := @adxrsTestFaults_of_firstGood _ asserted notAsserted hasCheck hasResult _ _ _ hi h
    _ _ hj h'
  apply AdxrsTestRight.of_firstAsserted (Nat.lt_of_lt_of_le hi (Nat.sub_le stEnMax 1)) h
  · rw [heok.1]
    apply iff_of_false AdxrsStatus.noConfusion
    intro hnone
    exact absurd hlt (Nat.not_lt.2 (FirstGood.le_of_passesOver h' hnone))
  · intro j' _ e hfail
    exact absurd hfail (FirstGood.not_firstFailure h')
  · intro j' _ c' hgood
    rw [← (FirstGood.unique h' hgood).2]
    exact heok

end SecondPhase

/-- What the responses of a phase can be. -/
theorem adxrsPoll_cases (next : σ → Except AdxrsStatus (BitVec 32) × σ) (st : BitVec 32) (s : σ) :
    PassesOver next (HasSt st) s stEnMax ∨
    (∃ i < stEnMax, ∃ e, FirstFailure next (HasSt st) s i e) ∨
    (∃ b, FirstGood next (HasSt st) s (stEnMax - 1) b) ∨
    ∃ i < stEnMax - 1, ∃ b, FirstGood next (HasSt st) s i b := by
  rcases poll_cases next (HasSt st) s stEnMax with hpass | ⟨i, hi, b, hgood⟩ | hfail
  · exact Or.inl hpass
  · rcases Nat.lt_or_ge i (stEnMax - 1) with hlt | hge
    · exact Or.inr (Or.inr (Or.inr ⟨i, hlt, b, hgood⟩))
    · have hlast : i = stEnMax - 1 := by omega
      exact Or.inr (Or.inr (Or.inl ⟨b, hlast ▸ hgood⟩))
  · exact Or.inr (Or.inl hfail)

/-- The verdict is right when no phase finds its response at the last one. -/
theorem AdxrsTestFits.right (hasserted : ∀ s e, (asserted s).1 = .error e → e = .eio)
    (hnotAsserted : ∀ s e, (notAsserted s).1 = .error e → e = .eio)
    (hfits : AdxrsTestFits asserted notAsserted s) :
    AdxrsTestRight asserted notAsserted hasCheck hasResult s
      (adxrsTestFaults asserted notAsserted hasCheck hasResult s) := by
  obtain ⟨hlast, hlastAfter⟩ := hfits
  rcases adxrsPoll_cases asserted adxrs450OutputGetStSelftest s with
    hpass | ⟨i, hi, e, hfail⟩ | ⟨b, hgood⟩ | ⟨i, hi, b, hgood⟩
  · exact AdxrsTestRight.of_passesOver hpass
  · apply AdxrsTestRight.of_firstFailure hi hfail
    rw [hasserted _ _ hfail.2]
    exact AdxrsStatus.noConfusion
  · exact AdxrsTestRight.of_none (by decide) hgood (hlast b hgood) (adxrsTestFaults_of_last hgood)
  · rcases adxrsPoll_cases notAsserted adxrs450OutputGetStData
      (afterResponses asserted (i + 1) s) with
      hnone | ⟨j, hj, e, hfail⟩ | ⟨c, hgood'⟩ | ⟨j, hj, c, hgood'⟩
    · exact AdxrsTestRight.of_none (Nat.lt_of_lt_of_le hi (Nat.sub_le stEnMax 1)) hgood hnone
        (adxrsTestFaults_of_none hi hgood hnone)
    · apply AdxrsTestRight.of_firstFailure_after hi hgood hj hfail
      rw [hnotAsserted _ _ hfail.2]
      exact AdxrsStatus.noConfusion
    · exact absurd hgood' (hlastAfter i hi b hgood c)
    · exact AdxrsTestRight.of_firstGood hi hgood hj hgood'

theorem AdxrsTestRight.fits (h : AdxrsTestRight asserted notAsserted hasCheck hasResult s
    (adxrsTestFaults asserted notAsserted hasCheck hasResult s)) :
    AdxrsTestFits asserted notAsserted s := by
  constructor
  · intro b hgood
    rcases h.etime.1 (adxrsTestFaults_of_last hgood) with hpass | ⟨i, -, b', hgood', hnone⟩
    · exact absurd (FirstGood.le_of_passesOver hgood hpass) (by decide)
    · rwa [← (FirstGood.unique hgood hgood').1] at hnone
  · intro i hi b hgood c hlast
    have heok := h.eok i (Nat.lt_of_lt_of_le hi (Nat.sub_le stEnMax 1)) b hgood (stEnMax - 1)
      (by decide) c hlast
    rw [adxrsTestFaults_of_last_after hi hgood hlast] at heok
    exact AdxrsStatus.noConfusion heok.1

end Test

theorem adxrsInteract_error {σ : Type*}
    {fcnavSpiTrans : List (BitVec 32) → σ → List (BitVec 32) × σ} {tx : List (BitVec 32)}
    {place : ℕ} {s : σ} {e : AdxrsStatus}
    (h : (adxrsInteract fcnavSpiTrans tx place s).1 = .error e) : e = .eio := by
  rw [adxrsInteract] at h
  dsimp only at h
  by_cases hparity : adxrs450ParityCheck32 (spiPdcExtractDword
      ((fcnavSpiTrans tx s).1.getD (place + 1) 0 ++ (fcnavSpiTrans tx s).1.getD place 0)) = .eok
  · rw [if_neg (not_not.2 hparity)] at h
    cases h
  · rw [if_pos hparity] at h
    exact (Except.error.inj h).symm

/-- The verdict of the test, in both copies of it, is right exactly when no phase finds its
response at the last one, whatever the device sends. -/
theorem adxrsTestRight_iff {σ : Type*} (fcnavSpiTrans : List (BitVec 32) → σ → List (BitVec 32) × σ)
    (cs dummyCs : BitVec 32) (hasCheck hasResult : Bool) (s : σ) :
    (AdxrsTestRight (adxrs450Asserted fcnavSpiTrans cs dummyCs)
        (adxrs450NotAsserted fcnavSpiTrans cs dummyCs) hasCheck hasResult s
        (adxrs450TestFaults fcnavSpiTrans hasCheck hasResult cs dummyCs s) ↔
      AdxrsTestFits (adxrs450Asserted fcnavSpiTrans cs dummyCs)
        (adxrs450NotAsserted fcnavSpiTrans cs dummyCs) s) ∧
    (AdxrsTestRight (fcDxrs450Asserted fcnavSpiTrans cs dummyCs)
        (fcDxrs450NotAsserted fcnavSpiTrans cs dummyCs) hasCheck hasResult s
        (fcDxrs450TestFaults fcnavSpiTrans hasCheck hasResult cs dummyCs s) ↔
      AdxrsTestFits (fcDxrs450Asserted fcnavSpiTrans cs dummyCs)
        (fcDxrs450NotAsserted fcnavSpiTrans cs dummyCs) s) := by
  constructor
  · exact ⟨AdxrsTestRight.fits, AdxrsTestFits.right (fun _ _ => adxrsInteract_error)
      fun _ _ => adxrsInteract_error⟩
  · exact ⟨AdxrsTestRight.fits, AdxrsTestFits.right (fun _ _ => adxrsInteract_error)
      fun _ _ => adxrsInteract_error⟩

/-- A device that says nothing of its self check in four responses, that it is on in the fifth
one, and then that it is off. -/
def lateGyro (_ : List (BitVec 32)) (n : ℕ) : List (BitVec 32) × ℕ :=
  let high := if n < 4 then 0 else if n = 4 then 0x0800 else 0x0400
  let low := if n < 4 then 1 else 0
  ([0, 0, 0, high, low, 0], n + 1)

/-- The test of such a device is a time out. -/
theorem not_adxrsTestRight_lateGyro :
    ¬ AdxrsTestRight (adxrs450Asserted lateGyro 1 0) (adxrs450NotAsserted lateGyro 1 0) true true 0
      (adxrs450TestFaults lateGyro true true 1 0 0) := by
  intro h
  have hlate : FirstAsserted (adxrs450Asserted lateGyro 1 0) 0 (stEnMax - 1) 0x08000000 := by
    refine ⟨fun i hi => ⟨1, ?_, by decide⟩, rfl, rfl⟩
    have h4 : i = 0 ∨ i = 1 ∨ i = 2 ∨ i = 3 := by
      change i < 4 at hi
      omega
    rcases h4 with rfl | rfl | rfl | rfl <;> rfl
  have hafter : FirstNotAsserted (adxrs450Asserted lateGyro 1 0)
      (adxrs450NotAsserted lateGyro 1 0) 0 5 0 0x04000000 :=
    ⟨passesOver_zero, rfl, rfl⟩
  have heok := h.eok 4 (by decide) 0x08000000 hlate 0 (by decide) 0x04000000 hafter
  rw [adxrs450TestFaults, adxrsTestFaults_of_last hlate] at heok
  exact AdxrsStatus.noConfusion heok.1

end Catpilot
