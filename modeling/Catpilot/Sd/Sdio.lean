import Catpilot.Hal.Status
import Catpilot.Sync.Program

/-!
# The SD interface

The `sdio_*` functions as programs over the mutexes and the data of the SD stack. Each takes
what its caller does with the result. A result is an `int`, given by its 32 bits, since
`sdio_read_blocks` and `sdio_write_blocks` put error flags into it.
-/

namespace Catpilot

/-- The mutex of `sdio_t`, and the one of `sdcard_t`. -/
inductive SdMutex where
  | sdio
  | card
  deriving DecidableEq, Repr

/-- `enum sdio_ex_state_t`. -/
inductive SdioState where
  | free
  | write
  | read
  deriving DecidableEq, Repr

/-- `enum sdio_cd_state_t`. -/
inductive SdioCdState where
  | connected
  | notConnected
  deriving DecidableEq, Repr

/-- The part of `HAL_SD_CardInfoTypeDef` that is read. -/
structure SdCardInfo where
  logBlockNbr : UInt32
  logBlockSize : UInt32
  deriving DecidableEq, Repr

/-- The shared data: `state`, `connected` and `sem` of `sdio_private_t`, and `info` of
`sdcard_t`. -/
structure SdData where
  state : SdioState
  connected : SdioCdState
  sem : Bool
  info : SdCardInfo
  deriving DecidableEq, Repr

/-- What the hardware layer answers: the status of a transfer that is started, the error
flags after it, the tick counts and card states that a wait reads, a card state, the card
detect pin, and the information about the card. -/
inductive SdAnswer where
  | status (rv : HalStatus)
  | errorCode (code : UInt32)
  | readings (start : UInt32) (readings : List (UInt32 × UInt32))
  | cardState (state : UInt32)
  | pin (reset : Bool)
  | info (rv : HalStatus) (info : SdCardInfo)
  deriving DecidableEq, Repr

abbrev SdProgram := Sync.Program SdMutex SdData SdAnswer ℕ

/-- `HAL_SD_CARD_TRANSFER`, `HAL_SD_CARD_DISCONNECTED` and `HAL_SD_CARD_ERROR`. -/
def halSdCardTransfer : UInt32 := 4
def halSdCardDisconnected : UInt32 := 8
def halSdCardError : UInt32 := 255

/-- The loop of `sdio_check_status_with_timeout` over what it reads; `none` where it has not
ended. -/
def sdioCheckStatusLoop (start timeout : UInt32) : UInt32 → List (UInt32 × UInt32) → Option ℕ
  | dt, [] => if dt < timeout then none else some rvEtimedout
  | dt, (ticks, status) :: rest =>
      if dt < timeout then
        if status = halSdCardTransfer then some 0
        else sdioCheckStatusLoop start timeout (ticks - start) rest
      else some rvEtimedout

def sdioCheckStatusWithTimeout (timeout : UInt32) (k : ℕ → SdProgram) : SdProgram :=
  .ask fun _ a =>
    match a with
    | .readings start readings => (sdioCheckStatusLoop start timeout 0 readings).map k
    | _ => none

/-- The label `free` of `sdio_read_blocks` and `sdio_write_blocks`. -/
def sdioFree (rv : ℕ) (k : ℕ → SdProgram) : SdProgram :=
  .assign (some .sdio) (fun d => { d with state := .free }) (.unlock .sdio (k rv))

/-- The end of the wait for the transfer, with the error flags. -/
def sdioTransferred (rv : ℕ) (k : ℕ → SdProgram) : SdProgram :=
  .ask fun _ a =>
    match a with
    | .errorCode code => some (sdioFree (if code ≠ 0 then rv ||| code.toNat else rv) k)
    | _ => none

/-- The transfer of blocks with the mutex taken, from where the semaphore is cleared. -/
def sdioTransfer (timeout : UInt32) (state : SdioState) (k : ℕ → SdProgram) : SdProgram :=
  .assign none (fun d => { d with sem := false }) <|
    .assign (some .sdio) (fun d => { d with state := state }) <|
      sdioCheckStatusWithTimeout timeout fun rv =>
        if rv ≠ 0 then sdioFree rv k
        else
          .ask fun _ a =>
            match a with
            | .status rv =>
                some <|
                  if rv ≠ .ok then sdioFree rv.value k
                  else
                    .wait SdData.sem (fun d => { d with sem := false }) (sdioTransferred 0 k)
                      (sdioTransferred rvEtimedout k)
            | _ => none

/-- The body that `sdio_read_blocks` and `sdio_write_blocks` share. -/
def sdioBlocks (timeout : UInt32) (state : SdioState) (pdata : Bool) (num : ℕ)
    (k : ℕ → SdProgram) : SdProgram :=
  if num = 0 ∨ pdata = false then k rvEinval
  else .lockWithin .sdio (sdioTransfer timeout state k) (sdioFree rvEtimedout k)

def sdioReadBlocks (timeout : UInt32) (pdata : Bool) (num : ℕ) (k : ℕ → SdProgram) :
    SdProgram :=
  sdioBlocks timeout .read pdata num k

/-- The cache of the data is cleaned before the transfer. -/
def sdioWriteBlocks (timeout : UInt32) (pdata : Bool) (num : ℕ) (k : ℕ → SdProgram) :
    SdProgram :=
  sdioBlocks timeout .write pdata num k

def sdioDetect (k : ℕ → SdProgram) : SdProgram :=
  .ask fun _ a =>
    match a with
    | .pin true => some (.assign none (fun d => { d with connected := .notConnected }) (k rvEnxio))
    | .pin false => some (.assign none (fun d => { d with connected := .connected }) (k 0))
    | _ => none

/-- `sdio_get_info`, with the information that it copies. -/
def sdioGetInfo (k : ℕ → SdCardInfo → SdProgram) : SdProgram :=
  .ask fun _ a =>
    match a with
    | .info rv info => some (k rv.value info)
    | _ => none

def sdioGetStatus (k : ℕ → SdProgram) : SdProgram :=
  .ask fun _ a =>
    match a with
    | .cardState state =>
        some <|
          k (if state = halSdCardError ∨ state = halSdCardDisconnected then state.toNat else 0)
    | _ => none

/-- What `sdio_handler` does with the data, by whether the HAL is ready. -/
def sdioHandler (ready : Bool) (d : SdData) : SdData :=
  if ready then { d with sem := true } else d

end Catpilot
