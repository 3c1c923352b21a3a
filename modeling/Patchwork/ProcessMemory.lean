import Patchwork.ByteMemory

/-!
# The memory of other processes

`WriteProcessMemory` and `ReadProcessMemory`. Both ask the debugger first, until it
refuses once; from then on both ask the payload only. Whoever is asked, what is done
to memory is what the requests that were answered with 0 come to.
-/

namespace Patchwork.ProcessMemory
open ByteMemory

structure Syscall where
  number : ℕ
  args : List ℕ
deriving DecidableEq, Repr

def scCobraSyscall8 : ℕ := 8
def syscall8OpcodePs3mapi : ℕ := 0x7777
def ps3mapiOpcodeSetProcMem : ℕ := 0x0032
def ps3mapiOpcodeGetProcMem : ℕ := 0x0031

/-- `useHenSyscalls`, what lies behind the system calls, and the calls with their answers. -/
structure Console (σ : Type) where
  useHenSyscalls : Bool
  state : σ
  trace : List (Syscall × ℤ)

section Code
variable {σ : Type} (kernel : Syscall → σ → ℤ × σ)

def systemCall (c : Syscall) (s : Console σ) : ℤ × Console σ :=
  let r := kernel c s.state
  (r.1, { s with state := r.2, trace := s.trace ++ [(c, r.1)] })

def dbgWriteCall (pid destination source size : ℕ) : Syscall :=
  ⟨905, [pid, destination, size, source]⟩

def dbgReadCall (pid destination source size : ℕ) : Syscall :=
  ⟨904, [pid, destination, size, source]⟩

def ps3mapiCall (opcode pid destination source size : ℕ) : Syscall :=
  ⟨scCobraSyscall8, [syscall8OpcodePs3mapi, opcode, pid, destination, source, size]⟩

def sysDbgWriteProcessMemory (pid destination source size : ℕ) (s : Console σ) : ℤ × Console σ :=
  systemCall kernel (dbgWriteCall pid destination source size) s

def sysDbgReadProcessMemory (pid destination source size : ℕ) (s : Console σ) : ℤ × Console σ :=
  systemCall kernel (dbgReadCall pid destination source size) s

def ps3mapiSetMemory (pid destination source size : ℕ) (s : Console σ) : ℤ × Console σ :=
  systemCall kernel (ps3mapiCall ps3mapiOpcodeSetProcMem pid destination source size) s

def ps3mapiGetMemory (pid destination source size : ℕ) (s : Console σ) : ℤ × Console σ :=
  systemCall kernel (ps3mapiCall ps3mapiOpcodeGetProcMem pid destination source size) s

def attempt (debug hen : Console σ → ℤ × Console σ) (s : Console σ) : ℤ × Console σ :=
  if s.useHenSyscalls = false then
    let done := debug s
    if done.1 = 0 then done else hen { done.2 with useHenSyscalls := true }
  else hen { s with useHenSyscalls := true }

def writeProcessMemory (pid address data size : ℕ) (s : Console σ) : ℤ × Console σ :=
  attempt (sysDbgWriteProcessMemory kernel pid address data size)
    (ps3mapiSetMemory kernel pid address data size) s

def readProcessMemory (pid address data size : ℕ) (s : Console σ) : ℤ × Console σ :=
  attempt (sysDbgReadProcessMemory kernel pid address data size)
    (ps3mapiGetMemory kernel pid address data size) s

end Code

inductive Access where
  | read
  | write
deriving DecidableEq, Repr

structure Request where
  access : Access
  pid : ℕ
  address : ℕ
  data : ℕ
  size : ℕ
deriving DecidableEq, Repr

namespace Request

def debug (r : Request) : Syscall :=
  match r.access with
  | .write => dbgWriteCall r.pid r.address r.data r.size
  | .read => dbgReadCall r.pid r.address r.data r.size

def hen (r : Request) : Syscall :=
  match r.access with
  | .write => ps3mapiCall ps3mapiOpcodeSetProcMem r.pid r.address r.data r.size
  | .read => ps3mapiCall ps3mapiOpcodeGetProcMem r.pid r.address r.data r.size

end Request

section Run
variable {σ : Type} (kernel : Syscall → σ → ℤ × σ)

def serve (r : Request) (s : Console σ) : ℤ × Console σ :=
  match r.access with
  | .write => writeProcessMemory kernel r.pid r.address r.data r.size s
  | .read => readProcessMemory kernel r.pid r.address r.data r.size s

def serveAll : List Request → Console σ → List ℤ × Console σ
  | [], s => ([], s)
  | r :: rs, s =>
    let first := serve kernel r s
    let rest := serveAll rs first.2
    (first.1 :: rest.1, rest.2)

variable {s : Console σ}

theorem serve_eq (r : Request) (s : Console σ) :
    serve kernel r s = attempt (systemCall kernel r.debug) (systemCall kernel r.hen) s := by
  unfold serve Request.debug Request.hen
  cases r.access <;> rfl

inductive Serves (r : Request) (s : Console σ) : ℤ × Console σ → Prop
  | debugged (off : s.useHenSyscalls = false) (done : (kernel r.debug s.state).1 = 0) :
      Serves r s (0, ⟨false, (kernel r.debug s.state).2, s.trace ++ [(r.debug, 0)]⟩)
  | refused {code answer : ℤ} {refusal left : σ} (off : s.useHenSyscalls = false)
      (no : kernel r.debug s.state = (code, refusal)) (nonzero : code ≠ 0)
      (asked : kernel r.hen refusal = (answer, left)) :
      Serves r s (answer, ⟨true, left, s.trace ++ [(r.debug, code), (r.hen, answer)]⟩)
  | latched {answer : ℤ} {left : σ} (on : s.useHenSyscalls = true)
      (asked : kernel r.hen s.state = (answer, left)) :
      Serves r s (answer, ⟨true, left, s.trace ++ [(r.hen, answer)]⟩)

theorem serve_cases (r : Request) (s : Console σ) : Serves kernel r s (serve kernel r s) := by
  rw [serve_eq, attempt]
  cases hs : s.useHenSyscalls with
  | true => exact .latched hs rfl
  | false =>
    rw [if_pos rfl]
    by_cases h0 : (kernel r.debug s.state).1 = 0
    · have hserves : Serves kernel r s _ := .debugged hs h0
      simp only [systemCall, h0, if_true, hs]
      exact hserves
    · have hserves : Serves kernel r s _ := .refused hs rfl h0 rfl
      rw [List.append_cons] at hserves
      simp only [systemCall, h0, if_false]
      exact hserves

theorem serveAll_latched (rs : List Request) (h : s.useHenSyscalls = true) :
    ∃ answers left, answers.length = rs.length ∧ serveAll kernel rs s =
      (answers, ⟨true, left, s.trace ++ (rs.map Request.hen).zip answers⟩) := by
  induction rs generalizing s with
  | nil => exact ⟨[], s.state, rfl, by simp [serveAll, ← h]⟩
  | cons r rs ih =>
    have hcase := serve_cases kernel r s
    rw [serveAll]
    generalize serve kernel r s = first at hcase
    cases hcase with
    | debugged off => exact absurd (off.symm.trans h) (by decide)
    | refused off => exact absurd (off.symm.trans h) (by decide)
    | @latched answer left on asked =>
      obtain ⟨answers, left', hlen, hrest⟩ :=
        ih (s := ⟨true, left, s.trace ++ [(r.hen, answer)]⟩) rfl
      refine ⟨answer :: answers, left', by simp [hlen], ?_⟩
      simp only [hrest]
      simp

variable {kernel}

/-- The debugger serves the requests until it refuses one. That one and all later ones, reading or
writing, go to the payload, and only that one is asked twice. -/
theorem serveAll_switches (rs : List Request) (h : s.useHenSyscalls = false) :
    ∃ done rest answers code left, rs = done ++ rest ∧ answers.length = rest.length ∧ code ≠ 0 ∧
      serveAll kernel rs s = (done.map (fun _ => 0) ++ answers, ⟨!rest.isEmpty, left,
        s.trace ++ (done.map (fun r => (r.debug, 0)) ++
          ((rest.head?.map fun r => (r.debug, code)).toList ++
            (rest.map Request.hen).zip answers))⟩) := by
  induction rs generalizing s with
  | nil => exact ⟨[], [], [], 1, s.state, rfl, rfl, by decide, by simp [serveAll, ← h]⟩
  | cons r rs ih =>
    have hcase := serve_cases kernel r s
    rw [serveAll]
    generalize serve kernel r s = first at hcase
    cases hcase with
    | latched on => exact absurd (h.symm.trans on) (by decide)
    | debugged off hdone =>
      obtain ⟨done, rest, answers, code, left, rfl, hlen, hcode, hrest⟩ :=
        ih (s := ⟨false, (kernel r.debug s.state).2, s.trace ++ [(r.debug, 0)]⟩) rfl
      refine ⟨r :: done, rest, answers, code, left, rfl, hlen, hcode, ?_⟩
      simp only [hrest]
      simp
    | @refused code answer refusal left off no nonzero asked =>
      obtain ⟨answers, left', hlen, hrest⟩ := serveAll_latched kernel rs
        (s := ⟨true, left, s.trace ++ [(r.debug, code), (r.hen, answer)]⟩) rfl
      refine ⟨[], r :: rs, answer :: answers, code, left', rfl, by simp [hlen], nonzero, ?_⟩
      simp only [hrest]
      simp

end Run

structure Memories where
  process : ℕ → Mem
  own : Mem

def Request.transfer (r : Request) (m : Memories) : Memories :=
  match r.access with
  | .write => { m with
      process := Function.update m.process r.pid
        (store (m.process r.pid) r.address (load m.own r.data r.size)) }
  | .read => { m with own := store m.own r.data (load (m.process r.pid) r.address r.size) }

def Syscall.request (c : Syscall) : Option Request :=
  match c.number, c.args with
  | 905, [pid, address, size, data] => some ⟨.write, pid, address, data, size⟩
  | 904, [pid, address, size, data] => some ⟨.read, pid, address, data, size⟩
  | 8, [0x7777, 0x32, pid, address, data, size] => some ⟨.write, pid, address, data, size⟩
  | 8, [0x7777, 0x31, pid, address, data, size] => some ⟨.read, pid, address, data, size⟩
  | _, _ => none

theorem Request.debug_request (r : Request) : r.debug.request = some r := by
  obtain ⟨access, pid, address, data, size⟩ := r
  cases access <;> rfl

theorem Request.hen_request (r : Request) : r.hen.request = some r := by
  obtain ⟨access, pid, address, data, size⟩ := r
  cases access <;> rfl

/-- A call that is answered with 0 does what it asks for, any other does nothing. -/
def Honest {σ : Type} (kernel : Syscall → σ → ℤ × σ) (view : σ → Memories) : Prop :=
  ∀ c r s, c.request = some r →
    view (kernel c s).2 = if (kernel c s).1 = 0 then r.transfer (view s) else view s

section Effect
variable {σ : Type} {kernel : Syscall → σ → ℤ × σ} {view : σ → Memories}

theorem serve_effect (honest : Honest kernel view) (r : Request) (s : Console σ) :
    view (serve kernel r s).2.state =
      if (serve kernel r s).1 = 0 then r.transfer (view s.state) else view s.state := by
  have hdebug := honest r.debug r s.state r.debug_request
  have hcase := serve_cases kernel r s
  generalize serve kernel r s = first at hcase
  cases hcase with
  | debugged off done =>
    rw [done] at hdebug
    exact hdebug
  | @refused code answer refusal left off no nonzero asked =>
    rw [no, if_neg nonzero] at hdebug
    have hhen := honest r.hen r refusal r.hen_request
    rw [asked, hdebug] at hhen
    exact hhen
  | @latched answer left on asked =>
    have hhen := honest r.hen r s.state r.hen_request
    rw [asked] at hhen
    exact hhen

/-- Whatever calls are made and whoever serves them, the answers tell what was done to memory. -/
theorem serveAll_refines (honest : Honest kernel view) (rs : List Request) (s : Console σ) :
    view (serveAll kernel rs s).2.state = (rs.zip (serveAll kernel rs s).1).foldl
      (fun m p => if p.2 = 0 then p.1.transfer m else m) (view s.state) := by
  induction rs generalizing s with
  | nil => rfl
  | cons r rs ih =>
    rw [serveAll]
    dsimp only
    rw [ih, List.zip_cons_cons, List.foldl_cons, serve_effect honest]

end Effect

-- A console whose debugger refuses.
def henKernel (c : Syscall) (m : Memories) : ℤ × Memories :=
  match c.number, c.request with
  | 8, some r => (0, r.transfer m)
  | _, _ => (-1, m)

theorem henKernel_honest : Honest henKernel id := by
  intro c r m hc
  unfold henKernel
  rw [hc]
  split
  · rename_i heq
    obtain rfl := Option.some.inj heq
    rfl
  · rfl

def henConsole : Console Memories := ⟨false, ⟨fun _ a => UInt8.ofNat a, fun _ => 0⟩, []⟩

def henRequests : List Request := [⟨.read, 1, 16, 0, 4⟩, ⟨.write, 1, 32, 0, 4⟩]

theorem serveAll_switches_hen : ∃ done rest answers code left, henRequests = done ++ rest ∧
    answers.length = rest.length ∧ code ≠ 0 ∧ serveAll henKernel henRequests henConsole =
      (done.map (fun _ => 0) ++ answers, ⟨!rest.isEmpty, left,
        henConsole.trace ++ (done.map (fun r => (r.debug, 0)) ++
          ((rest.head?.map fun r => (r.debug, code)).toList ++
            (rest.map Request.hen).zip answers))⟩) :=
  serveAll_switches henRequests rfl

theorem serveAll_refines_hen : (serveAll henKernel henRequests henConsole).2.state =
    (henRequests.zip (serveAll henKernel henRequests henConsole).1).foldl
      (fun m p => if p.2 = 0 then p.1.transfer m else m) henConsole.state :=
  serveAll_refines henKernel_honest henRequests henConsole

end Patchwork.ProcessMemory
