import Patchwork.Patches
import Patchwork.Update

/-!
# The module's start

`start` reads the configuration, may update and restart, and then applies the
game's table. A restart is taken for every answer of `TryUpdateAndInstall` but 0,
so it need not follow an installation.
-/

namespace Patchwork.Prx
open ByteMemory BoundedLoop Console Fs Http Update Util Patches

/-- Pointers are addresses; 0 is `NULL`. -/
structure PatchworkConfigOptions where
  serverUrl : ℕ
  joinKey : ℕ
  digestKey : ℕ
  enableJoinKey : ℤ
  updateServerUrl : ℕ
  enableUpdates : ℤ

structure PatchworkLaunchArgs where
  oldProcess : ℤ
  updated : ℤ

structure Frame where
  tomlBuf : ℕ
  joinKeyHash : ℕ
  gameNumStr : ℕ
  userAgent : ℕ
  msgBuf : ℕ

def decimalDigit (n : ℕ) : List UInt8 := [UInt8.ofNat (48 + n)]

theorem decimalDigit_eq (n : ℕ) (_ : n < 10) : decimalDigit n = [UInt8.ofNat (48 + n)] := rfl

/-- What surrounds a run of the module: the environment, its addresses, the version the
build gives it, what its locals hold at first, and two functions of the toml submodule: its
parser, which maps the buffer's address and memory to the options and the memory it leaves,
and `UIntToStr` in base ten, which writes a number below ten as its digit. -/
structure Setting where
  env : Env
  globals : Globals
  frame : Frame
  locals : Locals
  major : String
  minor : String
  sec : BitVec 64
  nsec : BitVec 64
  fp : ℕ
  toml : ℕ → Mem → PatchworkConfigOptions × Mem
  uintToStr : ℕ → List UInt8
  uintToStr_digit : ∀ n < 10, uintToStr n = [UInt8.ofNat (48 + n)]

def mainConfigPath : String := "/dev_hdd0/plugins/patchwork/patchwork.toml"
def wmRequestPath : String := "/dev_hdd0/tmp/wm_request"

def be64 (v : BitVec 64) : List UInt8 := be32 (v.toNat / 2 ^ 32) ++ be32 (v.toNat % 2 ^ 32)

def copyHashedJoinKey (sha256 : List UInt8 → Digest) (sec nsec : BitVec 64)
    (hashBuf joinKey : ℕ) (m : Mem) : Option (ℤ × Mem) :=
  if joinKey ≠ 0 then do
    let (joinKey, m) ← trimEnd joinKey m
    let length ← strlen m joinKey
    some (0, store m hashBuf (sha256 (load m joinKey length)).toList)
  else
    let combinedTime := nsec + sec
    some (1, store m hashBuf (sha256 (be64 combinedTime)).toList)

def store32 (a v : ℕ) (m : Mem) : Mem := store m a (be32 v)

section Start
variable (S : Setting)

def readConfig (w : World) : Called (Option PatchworkConfigOptions) :=
  let success := readFile S.env mainConfigPath S.frame.tomlBuf 312 w
  if success.value ≠ 0 then
    let parsed := S.toml S.frame.tomlBuf success.world.mem
    ⟨some parsed.1, logLn "Mapped config entries to patch options"
      (logLn "Parsed config file buffer" { success.world with mem := parsed.2 })⟩
  else ⟨none, errorDialog "Failed to read the Patchwork configuration!"
    (logLn "Failed to read config file, options are unset" success.world)⟩

def Updates (launchArgs : Option PatchworkLaunchArgs) (options : PatchworkConfigOptions) : Prop :=
  (launchArgs.map PatchworkLaunchArgs.updated = some 0) ∧ options.enableUpdates ≠ 0 ∧
    options.updateServerUrl ≠ 0

instance (launchArgs : Option PatchworkLaunchArgs) (options : PatchworkConfigOptions) :
    Decidable (Updates launchArgs options) := inferInstanceAs (Decidable (_ ∧ _ ∧ _))

def configure (launchArgs : Option PatchworkLaunchArgs) (w : World) :
    Option (Called PatchworkConfigOptions) :=
  let config := readConfig S w
  match config.value with
  | some options =>
    if Updates launchArgs options then do
      let tried ← tryUpdateAndInstall S.env S.locals options.updateServerUrl config.world
      if tried.value ≠ 0 then some ⟨options, (tryRestartModule S.env tried.world).world⟩
      else some ⟨options, tried.world⟩
    else some ⟨options, config.world⟩
  | none => some ⟨⟨0, 0, 0, 0, 0, 0⟩, config.world⟩

def setJoinKey (options : PatchworkConfigOptions) (w : World) : Option (Called ℤ) :=
  if options.enableJoinKey ≠ 0 then do
    let (randomized, m) ← copyHashedJoinKey S.env.sha256 S.sec S.nsec S.frame.joinKeyHash
      options.joinKey w.mem
    let m := store32 S.globals.networkKey S.frame.joinKeyHash m
    some ⟨randomized, logLn "Setup join key" { w with mem := m }⟩
  else some ⟨0, w⟩

def setPointer (cell string : ℕ) (fmt : String) (w : World) : Option World :=
  if string ≠ 0 then do
    let (trimmed, m) ← trimEnd string w.mem
    some (logLn fmt { w with mem := store32 cell trimmed m })
  else some w

def setServer (options : PatchworkConfigOptions) (w : World) : Option World := do
  let w ← setPointer S.globals.serverURL options.serverUrl "Server URL: %s" w
  setPointer S.globals.serverDigest options.digestKey "Digest Key: %s" w

def selectGame (game : GameNumber) (m : Mem) : Mem :=
  let notify := store32 S.globals.notificationEnableInstruction
  let hook := fun hook origin =>
    store32 S.globals.scriptHookInstruction (relativeBranch hook origin)
  match game with
  | .unknown => m
  | .lbp1 => hook S.globals.lbp1ScriptHook lbp1ResourceCheckOffset m
  | .lbp2 => hook S.globals.lbp2ScriptHook lbp2ResourceCheckOffset (notify 0x38000000 m)
  | .lbp3 => hook S.globals.lbp3ScriptHook lbp3ResourceCheckOffset (notify 0x38600000 m)
  | .lbp3JP => hook S.globals.lbp3JPScriptHook lbp3JPResourceCheckOffset (notify 0x38600000 m)

def gameNumber : GameNumber → ℕ
  | .unknown => 0
  | .lbp1 => 1
  | .lbp2 => 2
  | .lbp3 => 3
  | .lbp3JP => 4

def gameDigit (game : GameNumber) : UInt8 := UInt8.ofNat (48 + gameNumber game)

theorem uintToStr_gameNumber (game : GameNumber) : S.uintToStr (gameNumber game) =
    [gameDigit game] :=
  S.uintToStr_digit _ (by cases game <;> decide)

def userAgentText (options : PatchworkConfigOptions) (digit : UInt8) : List UInt8 :=
  ascii "PatchworkLBP" ++ [digit] ++ ascii (" " ++ S.major ++ "." ++ S.minor ++ " ") ++
    ascii (if options.enableJoinKey ≠ 0 then "" else "NK")

def successMessage (password : String) : List UInt8 :=
  ascii ("/popup.ps3?Patchwork%20" ++ S.major ++ "." ++ S.minor ++
    "%20Loaded%20for%20LBPX%0ALobby%20password%20" ++ password ++ "&icon=8&snd=5")

/-- The array of the message: `sizeof(SUCCESS_MESSAGE_WITHOUT_PW)` bytes. -/
def msgBuf : ℕ × ℕ := (S.frame.msgBuf, (successMessage S "is%20disabled").length + 1)

def message (options : PatchworkConfigOptions) (randomized : ℤ) : List UInt8 :=
  successMessage S (if options.enableJoinKey ≠ 0 then
    if randomized = 0 then "has%20been%20set" else "has%20been%20randomized"
  else "is%20disabled")

/-- `Snprintf` on a text that is already formatted. -/
def snprintf (buf size : ℕ) (text : List UInt8) (m : Mem) : Mem :=
  store m buf (text.take (size - 1) ++ [0])

def announce (options : PatchworkConfigOptions) (randomized : ℤ) (game : GameNumber)
    (w : World) : Option World := do
  let m := store w.mem S.frame.gameNumStr (S.uintToStr (gameNumber game) ++ [0])
  let w := logLn "Selected patches for LBP%s" w
  let m := snprintf S.frame.userAgent 64 (userAgentText S options (m S.frame.gameNumStr)) m
  let m := store32 S.globals.userAgent S.frame.userAgent m
  let w := logLn "User agent: %s" w
  let m := store m S.frame.msgBuf (message S options randomized ++ [0])
  let m ← replaceNext S.frame.msgBuf 88 (m S.frame.gameNumStr) m
  let length ← strlen m S.frame.msgBuf
  some (writeFile S.env S.fp wmRequestPath (load m S.frame.msgBuf length) { w with mem := m })

def patchGame (options : PatchworkConfigOptions) (w : World) : Option World := do
  let key ← setJoinKey S options w
  let w ← setServer S options key.world
  let game := getLBPGameNumber w.mem
  let w := { w with mem := selectGame S game w.mem }
  if game = .unknown then
    some (errorDialog "Failed to detect game, your online is not safe!" w)
  else do
    let w ← announce S options key.value game w
    some (applyGamePatches (patches S.globals game) w)

def launch (launchArgs : Option PatchworkLaunchArgs) (w : World) : World :=
  let w := if launchArgs.isSome then
      infoDialog ("Patchwork has been updated to version " ++ S.major ++ "." ++ S.minor)
        (logLn "PRX was reloaded from PRX ID: %d" w)
    else w
  initLogger S.env (loadAllModules S.env w)

def start (args : ℕ) (argp : Option PatchworkLaunchArgs) (w : World) : Option World := do
  let launchArgs := if args > 0 then argp else none
  let configured ← configure S launchArgs (launch S launchArgs w)
  let w ← patchGame S configured.value configured.world
  some (unloadAllModules S.env (destroyLogger w))

end Start

end Patchwork.Prx
