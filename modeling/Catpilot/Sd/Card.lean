import Catpilot.Sd.Sdio

/-!
# The SD card

The `sdcard_*` functions, and the calls that the tasks make on the SD stack after
`sdio_init` and `sdcard_start`.
-/

namespace Catpilot

open Sync

section Functions

variable (timeout : UInt32)

/-- The mutex of the card is given, and the call returns. -/
def sdcardReturn (rv : ℕ) : SdProgram := .unlock .card (.done rv)

/-- `dev` is set by `sdcard_start`. -/
def sdcardInit : SdProgram := .done 0

def sdcardRead (pdata : Bool) (num : ℕ) : SdProgram :=
  .lock .card (sdioReadBlocks timeout pdata num sdcardReturn)

def sdcardWrite (pdata : Bool) (num : ℕ) : SdProgram :=
  .lock .card (sdioWriteBlocks timeout pdata num sdcardReturn)

def sdcardGetInfo (k : ℕ → SdProgram) : SdProgram :=
  .lock .card <|
    sdioGetInfo fun rv info =>
      .assign (some .card) (fun d => { d with info := info }) (.unlock .card (k rv))

def sdcardGetStatus : SdProgram := .lock .card (sdioGetStatus sdcardReturn)

def sdcardGetStatusWithTimeout : SdProgram :=
  .lock .card (sdioCheckStatusWithTimeout 10000 sdcardReturn)

/-- The getters of the fields of `info`: `sdcard_get_info` within the mutex, and the field. -/
def sdcardGet (field : SdCardInfo → ℕ) : SdProgram :=
  .lock .card <|
    sdcardGetInfo fun _ => .unlock .card (.ask fun d _ => some (.done (field d.info)))

def sdcardGetSectorCount : SdProgram := sdcardGet fun info => info.logBlockNbr.toNat

def sdcardGetSectorSize : SdProgram := sdcardGet fun info => info.logBlockSize.toUInt16.toNat

def sdcardGetBlockSize : SdProgram := sdcardGet fun info => (info.logBlockSize / 512).toNat

end Functions

/-- The calls; a buffer is given by whether it is not `NULL`. -/
inductive SdCall where
  | sdioReadBlocks (pdata : Bool) (num : ℕ)
  | sdioWriteBlocks (pdata : Bool) (num : ℕ)
  | sdioCheckStatusWithTimeout (timeout : UInt32)
  | sdioDetect
  | sdioGetInfo
  | sdioGetStatus
  | sdcardInit
  | sdcardRead (pdata : Bool) (num : ℕ)
  | sdcardWrite (pdata : Bool) (num : ℕ)
  | sdcardGetInfo
  | sdcardGetStatus
  | sdcardGetStatusWithTimeout
  | sdcardGetSectorCount
  | sdcardGetSectorSize
  | sdcardGetBlockSize
  deriving DecidableEq, Repr

def SdCall.program (timeout : UInt32) : SdCall → SdProgram
  | sdioReadBlocks pdata num => Catpilot.sdioReadBlocks timeout pdata num .done
  | sdioWriteBlocks pdata num => Catpilot.sdioWriteBlocks timeout pdata num .done
  | sdioCheckStatusWithTimeout timeout => Catpilot.sdioCheckStatusWithTimeout timeout .done
  | sdioDetect => Catpilot.sdioDetect .done
  | sdioGetInfo => Catpilot.sdioGetInfo fun rv _ => .done rv
  | sdioGetStatus => Catpilot.sdioGetStatus .done
  | sdcardInit => Catpilot.sdcardInit
  | sdcardRead pdata num => Catpilot.sdcardRead timeout pdata num
  | sdcardWrite pdata num => Catpilot.sdcardWrite timeout pdata num
  | sdcardGetInfo => Catpilot.sdcardGetInfo .done
  | sdcardGetStatus => Catpilot.sdcardGetStatus
  | sdcardGetStatusWithTimeout => Catpilot.sdcardGetStatusWithTimeout
  | sdcardGetSectorCount => Catpilot.sdcardGetSectorCount
  | sdcardGetSectorSize => Catpilot.sdcardGetSectorSize
  | sdcardGetBlockSize => Catpilot.sdcardGetBlockSize

abbrev SdMove (ι : Type*) := Move ι SdAnswer SdCall Bool

abbrev SdSystem (ι : Type*) := System ι SdMutex SdData SdAnswer ℕ

/-- The SD stack before the first call. -/
def SdSystem.init (ι : Type*) : SdSystem ι where
  owner := fun _ => none
  data := ⟨.free, .connected, false, ⟨0, 0⟩⟩
  thread := fun _ => .done 0

/-- The steps of the tasks and of the handler of the interrupt. -/
def sdStep {ι : Type*} [DecidableEq ι] (timeout : UInt32) (s : SdSystem ι) :
    SdMove ι → Option (SdSystem ι) :=
  s.step (SdCall.program timeout) sdioHandler

end Catpilot
