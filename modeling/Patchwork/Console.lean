import Mathlib.Data.Int.Notation
import Mathlib.Logic.Function.Basic
import Patchwork.ByteMemory

/-!
# The console

What the plugin's code can reach: files, descriptors, memory, the response body
still to be received, and a trace of every call made so far. The environment
answers the calls. Its answers are numbered by the length of the trace, so any
call can succeed, fail or be cut short independently of every other.
-/

namespace Patchwork.Console
open ByteMemory

abbrev Digest := Vector UInt8 32

inductive Mode where
  | rdonly
  | wronlyCreatTrunc
deriving DecidableEq, Repr

structure Handle where
  path : String
  pos : ℕ
deriving DecidableEq, Repr

/-- What one receive can put into the 256 bytes of `HttpDownloadFile`'s buffer. -/
structure Chunk where
  bytes : List UInt8
  fits : bytes.length ≤ 256

inductive Recv where
  | chunk : Chunk → Recv
  | error : Recv

inductive Http where
  | init (pool size : ℕ)
  | createClient
  | parseUri (uri : ℕ)
  | createTransaction (client : ℕ) (method : String)
  | addHeader (trans : ℕ)
  | sendRequest (trans : ℕ)
  | contentLength (trans : ℕ)
  | statusCode (trans : ℕ)
  | getHeader (trans : ℕ) (room : Option ℕ)
  | recvResponse (trans : ℕ)
  | destroyTransaction (trans : ℕ)
  | endHttp
  | destroyClient (client : ℕ)
deriving DecidableEq, Repr

inductive Sys where
  | loadSysmodule (index : ℕ)
  | unloadSysmodule (index : ℕ)
  | initializeNetwork
  | finalizeNetwork
  | allocateMemory (size : ℕ)
  | freeMemory (addr : ℕ)
  | getMyModuleId
  | loadModule (path : String)
  | startModule (id oldProcess updated : ℤ)
deriving DecidableEq, Repr

inductive Line where
  | format (s : String)
  | header (value : ℕ → UInt8)

inductive Event where
  | opened (path : String) (mode : Mode) (fd : Option ℕ)
  | read (fd : ℕ) (count : Option ℕ)
  | written (fd : ℕ) (ok : Bool) (count : ℕ)
  | closed (fd : ℕ)
  | log (fd : ℕ) (line : Line)
  | dialog (text : String)
  | http (call : Http) (code : ℤ)
  | sys (call : Sys) (code : ℤ)
  | downloaded (result : ℤ)
  | copied (src dst : String)
  /-- `TryRestartModule` was called, with these contents of `DOWNLOAD_PATH` and
  `INSTALL_PATH`. -/
  | restart (download install : Option (List UInt8))

structure Shared where
  file : String → Option (List UInt8)
  /-- What `LogLn` has written into a file, line by line, next to the bytes in `file`. -/
  logged : String → List Line
  mem : Mem

structure World extends Shared where
  handle : ℕ → Option Handle
  incoming : List Recv
  logFP : ℕ
  trace : List Event

structure ReadReply where
  ok : Bool
  count : ℕ

structure Written where
  ok : Bool
  count : ℕ

structure Env where
  opens : ℕ → Bool
  reads : ℕ → ReadReply
  writes : ℕ → Written
  /-- The return codes of the other calls; negative means failure. -/
  code : ℕ → ℤ
  /-- What the calls that hand out a handle or an address store in it. -/
  handle : ℕ → ℕ
  statusCode : ℤ
  headerSize : ℕ
  header : ℕ → UInt8
  sha256 : List UInt8 → Digest
  /-- `StrToInt` of the toml submodule: the characters and the base. -/
  strToInt : List UInt8 → ℕ → ℤ
  /-- What a module that is started leaves. -/
  startModule : Shared → Shared

structure Called (α : Type) where
  value : α
  world : World

namespace World

def now (w : World) : ℕ := w.trace.length

def emit (w : World) (e : Event) : World := { w with trace := w.trace ++ [e] }

variable (w : World) (e : Event)
@[simp] theorem emit_file : (w.emit e).file = w.file := rfl
@[simp] theorem emit_logged : (w.emit e).logged = w.logged := rfl
@[simp] theorem emit_handle : (w.emit e).handle = w.handle := rfl
@[simp] theorem emit_incoming : (w.emit e).incoming = w.incoming := rfl
@[simp] theorem emit_mem : (w.emit e).mem = w.mem := rfl
@[simp] theorem emit_logFP : (w.emit e).logFP = w.logFP := rfl
@[simp] theorem emit_trace : (w.emit e).trace = w.trace ++ [e] := rfl
@[simp] theorem emit_now : (w.emit e).now = w.now + 1 := by simp [now]

end World

variable (env : Env)

def Opens (path : String) (mode : Mode) (w : World) : Prop :=
  env.opens w.now = true ∧ (mode = .rdonly → (w.file path).isSome)

instance (path : String) (mode : Mode) (w : World) : Decidable (Opens env path mode w) :=
  inferInstanceAs (Decidable (_ ∧ _))

def afterOpen (path : String) (mode : Mode) (w : World) : World :=
  { w with
    file := match mode with
      | .rdonly => w.file
      | .wronlyCreatTrunc => Function.update w.file path (some [])
    logged := match mode with
      | .rdonly => w.logged
      | .wronlyCreatTrunc => Function.update w.logged path []
    handle := Function.update w.handle (w.now + 1) (some ⟨path, 0⟩) }.emit
      (.opened path mode (some (w.now + 1)))

def cellFsOpen (path : String) (mode : Mode) (w : World) : Called (Option ℕ) :=
  if Opens env path mode w then ⟨some (w.now + 1), afterOpen path mode w⟩
  else ⟨none, w.emit (.opened path mode none)⟩

def afterRead (fd : ℕ) (h : Handle) (bytes : List UInt8) (w : World) : World :=
  { w with handle := Function.update w.handle fd (some ⟨h.path, h.pos + bytes.length⟩) }.emit
    (.read fd (some bytes.length))

def cellFsRead (fd size : ℕ) (w : World) : Called (Option (List UInt8)) :=
  match (env.reads w.now).ok, w.handle fd with
  | true, some h =>
    let rest := ((w.file h.path).getD []).drop h.pos
    let bytes := rest.take (min (env.reads w.now).count size)
    ⟨some bytes, afterRead fd h bytes w⟩
  | _, _ => ⟨none, w.emit (.read fd none)⟩

/-- A write appends what it reports as written, also when it reports an error. -/
def cellFsWrite (fd : ℕ) (bytes : List UInt8) (w : World) : Called Written :=
  match w.handle fd with
  | some h =>
    let r := env.writes w.now
    let n := min r.count bytes.length
    ⟨⟨r.ok, n⟩, { w with
      file := Function.update w.file h.path
        (some ((w.file h.path).getD [] ++ bytes.take n)) }.emit (.written fd r.ok n)⟩
  | none => ⟨⟨false, 0⟩, w.emit (.written fd false 0)⟩

def cellFsClose (fd : ℕ) (w : World) : World :=
  { w with handle := Function.update w.handle fd none }.emit (.closed fd)

def cellHttp (call : Http) (w : World) : Called ℤ :=
  ⟨env.code w.now, w.emit (.http call (env.code w.now))⟩

def sys (call : Sys) (w : World) : Called ℤ :=
  ⟨env.code w.now, w.emit (.sys call (env.code w.now))⟩

/-- `cellHttpRecvResponse`; a body that has been received whole gives nothing more. -/
def cellHttpRecvResponse (trans : ℕ) (w : World) : Called (Option (List UInt8)) :=
  let call := Http.recvResponse trans
  match w.incoming with
  | [] => ⟨some [], w.emit (.http call 0)⟩
  | .chunk c :: rest => ⟨some c.bytes, { w with incoming := rest }.emit (.http call 0)⟩
  | .error :: rest => ⟨none, { w with incoming := rest }.emit (.http call (-1))⟩

/-- The `cellFsWrite` of `LogLn`, which goes to whatever is open under `LogFP`. A line counts as
written also when the write fails or is cut short. -/
def writeLine (line : Line) (w : World) : World :=
  { w with logged := match w.handle w.logFP with
      | some h => Function.update w.logged h.path (w.logged h.path ++ [line])
      | none => w.logged }.emit (.log w.logFP line)

def logLn (fmt : String) (w : World) : World := writeLine (.format fmt) w
def logHeader (value : ℕ → UInt8) (w : World) : World := writeLine (.header value) w
def errorDialog (text : String) (w : World) : World := w.emit (.dialog text)
def infoDialog (text : String) (w : World) : World := w.emit (.dialog text)

def Event.IsFile : Event → Prop
  | .opened .. | .read .. | .written .. | .closed .. => True
  | _ => False

def Event.IsRoutine : Event → Prop
  | .downloaded .. | .copied .. | .restart .. => False
  | _ => True

theorem Event.IsFile.isRoutine : ∀ {e : Event}, e.IsFile → e.IsRoutine
  | .opened .., _ | .read .., _ | .written .., _ | .closed .., _ => trivial

def Event.Uses (fd : ℕ) : Event → Prop
  | .read fd' _ | .written fd' .. => fd' = fd
  | _ => False

theorem Event.Uses.isFile {fd : ℕ} : ∀ {e : Event}, e.Uses fd → e.IsFile
  | .read .., _ | .written .., _ => trivial

def Emits (P : Event → Prop) (w w' : World) : Prop :=
  ∃ es, w'.trace = w.trace ++ es ∧ ∀ e ∈ es, P e

namespace Emits
variable {P Q : Event → Prop} {w w₁ w₂ : World}

theorem of_eq (h : w₁.trace = w.trace) : Emits P w w₁ := ⟨[], by simp [h], by simp⟩

theorem one {e : Event} (he : P e) (h : w₁.trace = w.trace ++ [e]) : Emits P w w₁ :=
  ⟨[e], h, by simpa using he⟩

theorem trans (h : Emits P w w₁) (h' : Emits P w₁ w₂) : Emits P w w₂ := by
  obtain ⟨es, he, hP⟩ := h
  obtain ⟨es', he', hP'⟩ := h'
  refine ⟨es ++ es', by rw [he', he, List.append_assoc], fun e hmem => ?_⟩
  rcases List.mem_append.mp hmem with hm | hm
  · exact hP e hm
  · exact hP' e hm

theorem emit {e : Event} (h : Emits P w w₁) (he : P e) : Emits P w (w₁.emit e) :=
  h.trans (one he rfl)

theorem now_le (h : Emits P w w₁) : w.now ≤ w₁.now := by
  obtain ⟨es, he, -⟩ := h
  rw [World.now, World.now, he, List.length_append]
  exact Nat.le_add_right _ _

theorem mono (h : Emits P w w₁) (hPQ : ∀ e, P e → Q e) : Emits Q w w₁ := by
  obtain ⟨es, he, hP⟩ := h
  exact ⟨es, he, fun e hm => hPQ e (hP e hm)⟩

end Emits

@[simp] theorem writeLine_now (line : Line) (w : World) : (writeLine line w).now = w.now + 1 := by
  simp [writeLine, World.now]

@[simp] theorem writeLine_trace (line : Line) (w : World) :
    (writeLine line w).trace = w.trace ++ [.log w.logFP line] := rfl

theorem writeLine_logged {path : String} {line : Line} {w : World}
    (h : (w.handle w.logFP).map Handle.path ≠ some path) :
    (writeLine line w).logged path = w.logged path := by
  change (match w.handle w.logFP with
    | some h => Function.update w.logged h.path (w.logged h.path ++ [line])
    | none => w.logged) path = w.logged path
  cases hh : w.handle w.logFP with
  | none => rfl
  | some handle =>
    have hne : path ≠ handle.path := by
      rintro rfl
      exact h (by rw [hh, Option.map_some])
    exact Function.update_of_ne hne ..

/-- From `w` to `w'` nothing happened but calls that leave the descriptors, the response, memory
and the files alone, but for lines for the log. -/
structure Quiet (w w' : World) : Prop where
  file : w'.file = w.file
  logged : ∀ path, (w.handle w.logFP).map Handle.path ≠ some path → w'.logged path = w.logged path
  handle : w'.handle = w.handle
  incoming : w'.incoming = w.incoming
  mem : w'.mem = w.mem
  logFP : w'.logFP = w.logFP
  emits : Emits Event.IsRoutine w w'

namespace Quiet
variable {w w₁ w₂ : World}

theorem refl (w : World) : Quiet w w := ⟨rfl, fun _ _ => rfl, rfl, rfl, rfl, rfl, .of_eq rfl⟩

theorem trans (h : Quiet w w₁) (h' : Quiet w₁ w₂) : Quiet w w₂ where
  file := h'.file.trans h.file
  logged path hp := by
    refine (h'.logged path ?_).trans (h.logged path hp)
    rwa [h.handle, h.logFP]
  handle := h'.handle.trans h.handle
  incoming := h'.incoming.trans h.incoming
  mem := h'.mem.trans h.mem
  logFP := h'.logFP.trans h.logFP
  emits := h.emits.trans h'.emits

theorem emit {e : Event} (he : e.IsRoutine) : Quiet w (w.emit e) :=
  ⟨rfl, fun _ _ => rfl, rfl, rfl, rfl, rfl, .one he rfl⟩

theorem writeLine (line : Line) : Quiet w (writeLine line w) :=
  ⟨rfl, fun _ hp => writeLine_logged hp, rfl, rfl, rfl, rfl, .one (by trivial) rfl⟩

theorem cellHttp (call : Http) : Quiet w (cellHttp env call w).world := emit (by trivial)
theorem sys (call : Sys) : Quiet w (sys env call w).world := emit (by trivial)
theorem logLn (fmt : String) : Quiet w (logLn fmt w) := writeLine _
theorem logHeader (value : ℕ → UInt8) : Quiet w (logHeader value w) := writeLine _
theorem errorDialog (text : String) : Quiet w (errorDialog text w) := emit (by trivial)

end Quiet

section Files
variable {path : String} {mode : Mode} {fd size : ℕ} {h : Handle} {bytes : List UInt8} {w : World}

theorem cellFsOpen_pos (h : Opens env path mode w) :
    cellFsOpen env path mode w = ⟨some (w.now + 1), afterOpen path mode w⟩ := if_pos h

theorem cellFsOpen_neg (h : ¬ Opens env path mode w) :
    cellFsOpen env path mode w = ⟨none, w.emit (.opened path mode none)⟩ := if_neg h

@[simp] theorem afterOpen_now : (afterOpen path mode w).now = w.now + 1 := by
  simp [afterOpen, World.now]

@[simp] theorem afterOpen_handle : (afterOpen path mode w).handle =
    Function.update w.handle (w.now + 1) (some ⟨path, 0⟩) := rfl

@[simp] theorem afterOpen_rdonly_file : (afterOpen path .rdonly w).file = w.file := rfl

@[simp] theorem afterOpen_wronly_file : (afterOpen path .wronlyCreatTrunc w).file =
    Function.update w.file path (some []) := rfl

@[simp] theorem afterRead_now : (afterRead fd h bytes w).now = w.now + 1 := by
  simp [afterRead, World.now]

@[simp] theorem afterRead_file : (afterRead fd h bytes w).file = w.file := rfl

@[simp] theorem afterRead_handle : (afterRead fd h bytes w).handle =
    Function.update w.handle fd (some ⟨h.path, h.pos + bytes.length⟩) := rfl

theorem cellFsRead_ok (size : ℕ) (bytes : List UInt8) (hok : (env.reads w.now).ok = true)
    (hh : w.handle fd = some h)
    (hb : bytes = (((w.file h.path).getD []).drop h.pos).take (min (env.reads w.now).count size)) :
    cellFsRead env fd size w = ⟨some bytes, afterRead fd h bytes w⟩ := by
  subst hb
  simp only [cellFsRead, hok, hh]

theorem cellFsRead_error (hok : (env.reads w.now).ok = false) :
    cellFsRead env fd size w = ⟨none, w.emit (.read fd none)⟩ := by
  simp only [cellFsRead, hok]

theorem cellFsOpen_emits : Emits Event.IsFile w (cellFsOpen env path mode w).world := by
  unfold cellFsOpen
  split <;> exact .one (by trivial) rfl

theorem cellFsRead_uses : Emits (Event.Uses fd) w (cellFsRead env fd size w).world := by
  unfold cellFsRead
  split <;> exact .one (by exact rfl) rfl

theorem cellFsRead_emits : Emits Event.IsFile w (cellFsRead env fd size w).world :=
  (cellFsRead_uses env).mono fun _ he => he.isFile

theorem cellFsWrite_uses : Emits (Event.Uses fd) w (cellFsWrite env fd bytes w).world := by
  unfold cellFsWrite
  split <;> exact .one (by exact rfl) rfl

theorem cellFsWrite_emits : Emits Event.IsFile w (cellFsWrite env fd bytes w).world :=
  (cellFsWrite_uses env).mono fun _ he => he.isFile

theorem cellFsClose_emits : Emits Event.IsFile w (cellFsClose fd w) :=
  .one (by trivial) rfl

@[simp] theorem cellFsClose_file : (cellFsClose fd w).file = w.file := rfl

end Files

structure Appended (path : String) (bytes : List UInt8) (w w' : World) : Prop where
  file : ∃ old, w.file path = some old ∧
    w'.file = Function.update w.file path (some (old ++ bytes))
  handle : w'.handle = w.handle
  incoming : w'.incoming = w.incoming
  mem : w'.mem = w.mem

namespace Appended
variable {path : String} {xs ys : List UInt8} {w w₁ w₂ : World}

theorem refl (h : (w.file path).isSome) : Appended path [] w w := by
  obtain ⟨old, ho⟩ := Option.isSome_iff_exists.mp h
  exact ⟨⟨old, ho, by simp [← ho]⟩, rfl, rfl, rfl⟩

theorem trans (h : Appended path xs w w₁) (h' : Appended path ys w₁ w₂) :
    Appended path (xs ++ ys) w w₂ := by
  obtain ⟨old, ho, hf⟩ := h.file
  obtain ⟨old', ho', hf'⟩ := h'.file
  have hold : old' = old ++ xs := by simpa [hf] using ho'.symm
  refine ⟨⟨old, ho, ?_⟩, h'.handle.trans h.handle, h'.incoming.trans h.incoming,
    h'.mem.trans h.mem⟩
  rw [hf', hf, Function.update_idem, hold, List.append_assoc]

theorem file_self (h : Appended path xs w w₁) {old : List UInt8} (ho : w.file path = some old) :
    w₁.file path = some (old ++ xs) := by
  obtain ⟨old', ho', hf⟩ := h.file
  obtain rfl : old = old' := by simpa [ho] using ho'
  simp [hf]

theorem file_other (h : Appended path xs w w₁) {other : String} (ho : other ≠ path) :
    w₁.file other = w.file other := by
  obtain ⟨old, -, hf⟩ := h.file
  simp [hf, ho]

end Appended

section Write
variable {fd : ℕ} {h : Handle} {bytes : List UInt8} {w : World}

theorem cellFsWrite_appended (bytes : List UInt8) (hh : w.handle fd = some h)
    (hf : (w.file h.path).isSome) :
    Appended h.path (bytes.take (cellFsWrite env fd bytes w).value.count) w
      (cellFsWrite env fd bytes w).world := by
  obtain ⟨old, ho⟩ := Option.isSome_iff_exists.mp hf
  simp only [cellFsWrite, hh]
  exact ⟨⟨old, ho, by simp [ho]⟩, rfl, rfl, rfl⟩

theorem cellFsWrite_ok (hh : w.handle fd = some h) :
    (cellFsWrite env fd bytes w).value.ok = (env.writes w.now).ok := by
  simp only [cellFsWrite, hh]

theorem cellFsWrite_count (hh : w.handle fd = some h) :
    (cellFsWrite env fd bytes w).value.count = min (env.writes w.now).count bytes.length := by
  simp only [cellFsWrite, hh]

@[simp] theorem cellFsWrite_now : (cellFsWrite env fd bytes w).world.now = w.now + 1 := by
  unfold cellFsWrite
  split <;> simp [World.now]

theorem cellFsWrite_count_le : (cellFsWrite env fd bytes w).value.count ≤ bytes.length := by
  unfold cellFsWrite
  split
  · exact Nat.min_le_right _ _
  · exact Nat.zero_le _

end Write

end Patchwork.Console
