import Patchwork.Http

/-!
# Updates

The download, the check of its hash, the installation and the restart. Each layer
has a return convention of its own: `DownloadUpdate` answers 0, 1 or 2, `CopyFile`
0 or -1, and `start` takes every answer but 0 for an update.
-/

namespace Patchwork.Update
open BoundedLoop Console Fs Http
variable (env : Env)

def downloadPath : String := "/dev_hdd0/plugins/patchwork/patchwork.sprx"
def installPath : String := "/dev_hdd0/plugins/patchwork.sprx"

/-- What the locals of `DownloadUpdate` and of its constructors hold before they are set. -/
structure Locals where
  context : HttpContext
  transaction : HttpTransaction
  hashHeader : ℕ → UInt8
  hashBuf : Digest

variable (locals : Locals)

structure Connection where
  ctx : HttpContext
  trans : HttpTransaction

def request (pool poolSize serverUrl : ℕ) (w : World) : Called Connection :=
  let ctx := httpContextCtor env pool poolSize locals.context w
  let trans := httpTransactionCtor env ctx.value serverUrl "GET" locals.transaction ctx.world
  let added := cellHttp env (.addHeader trans.value.transId) trans.world
  let sent := httpTransactionSendRequest env trans.value added.world
  ⟨⟨ctx.value, sent.value⟩, sent.world⟩

def disconnect (c : Connection) (w : World) : World :=
  httpContextDtor env c.ctx (httpTransactionDtor env c.trans w)

structure HashHeader where
  err : ℤ
  value : ℕ → UInt8

def fetchHeader (trans : HttpTransaction) (w : World) : Called HashHeader :=
  let first := cellHttp env (.getHeader trans.transId none) w
  let missed := first.value < 0
  let w₁ := if missed then logLn "ERROR: transaction error" first.world else first.world
  let required := if missed then 0 else env.headerSize
  -- the second call is made even if the first one failed
  let second := cellHttp env (.getHeader trans.transId (some required)) w₁
  if second.value < 0 then
    ⟨⟨2, locals.hashHeader⟩, logLn "ERROR: transaction error 2" second.world⟩
  else ⟨⟨if missed then 2 else 0, env.header⟩, second.world⟩

def serverByte (value : ℕ → UInt8) (i : ℕ) : UInt8 :=
  UInt8.ofInt (env.strToInt [value (i * 2), value (i * 2 + 1)] 16)

structure Comparing where
  i : ℕ
  err : ℤ
  world : World

def compareRound (value : ℕ → UInt8) (hashBuf : Digest) (s : Comparing) :
    Pass Comparing (Called ℤ) :=
  if h : s.i < 32 then
    if serverByte env value s.i ≠ hashBuf[s.i] then
      .leave ⟨2, logLn "ERROR: hash mismatch" s.world⟩
    else .again ⟨s.i + 1, if s.i = 31 then 1 else s.err, s.world⟩
  else .leave ⟨s.err, s.world⟩

def compareHash (value : ℕ → UInt8) (hashBuf : Digest) (err : ℤ) (w : World) :
    Option (Called ℤ) :=
  run (compareRound env value hashBuf) 33 ⟨0, err, w⟩

def downloadUpdate (pool poolSize serverUrl : ℕ) (w : World) : Option (Called ℤ) :=
  let w := logLn "\nstart download update\n" w
  if pool = 0 ∨ poolSize = 0 then some ⟨2, logLn "ERROR: invalid pool size" w⟩
  else
    let c := request env locals pool poolSize serverUrl w
    if c.value.trans.err < 0 then
      some ⟨2, logLn "ERROR: failed to make request" (disconnect env c.value c.world)⟩
    else
      let header := fetchHeader env locals c.value.trans c.world
      let err := if c.value.trans.statusCode = 204 then 0 else header.value.err
      if c.value.trans.statusCode = 200 then do
        let download ← httpDownloadFile env c.value.trans downloadPath (some locals.hashBuf)
          header.world
        let hashBuf := download.value.hashBuf.getD locals.hashBuf
        let compared ← compareHash env header.value.value hashBuf err
          (logHeader header.value.value download.world)
        some ⟨compared.value, disconnect env c.value compared.world⟩
      else some ⟨err, disconnect env c.value header.world⟩

def installUpdate (path : String) (w : World) : Option (Called ℤ) :=
  copyFile env downloadPath path w

def network (w : World) : Called ℤ := sys env .initializeNetwork w

/-- The pool for the HTTP client, a null pointer if it could not be allocated. -/
def httpPool (w : World) : Called ℕ :=
  let net := network env w
  let allocated := sys env (.allocateMemory 65536) net.world
  ⟨if allocated.value < 0 then 0 else env.handle net.world.now, allocated.world⟩

def released (pool : ℕ) (r : Called ℤ) : World :=
  let freed := (sys env (.freeMemory pool) (r.world.emit (.downloaded r.value))).world
  (sys env .finalizeNetwork freed).world

def tryUpdateAndInstall (url : ℕ) (w : World) : Option (Called ℤ) :=
  if (network env w).value = 0 then some ⟨2, (network env w).world⟩
  else do
    let pool := httpPool env w
    let r ← downloadUpdate env locals pool.value 65536 url pool.world
    let finalized := released env pool.value r
    if r.value = 1 then do
      let installed ← installUpdate env installPath finalized
      some ⟨1, logLn "No patchwork update available" installed.world⟩
    else if r.value = 2 then
      some ⟨2, errorDialog "Failed to update patchwork" (logLn "Update failed" finalized)⟩
    else some ⟨r.value, finalized⟩

/-- The started module has run to its end when the call that starts it returns. -/
def tryRestartModule (w : World) : Called ℤ :=
  let w := logLn "Restarting module" (w.emit (.restart (w.file downloadPath) (w.file installPath)))
  let myId := sys env .getMyModuleId w
  let newId := sys env (.loadModule installPath) myId.world
  let ret := sys env (.startModule newId.value myId.value 1) newId.world
  let w := { ret.world with toShared := env.startModule ret.world.toShared }
  ⟨ret.value, if ret.value < 0 then errorDialog "Failed to restart patchwork" w else w⟩

def Matches (value : ℕ → UInt8) (hashBuf : Digest) : Prop :=
  ∀ i (h : i < 32), serverByte env value i = hashBuf[i]

instance (value : ℕ → UInt8) (hashBuf : Digest) : Decidable (Matches env value hashBuf) :=
  inferInstanceAs (Decidable (∀ i (h : i < 32), serverByte env value i = hashBuf[i]))

inductive CompareCase (value : ℕ → UInt8) (hashBuf : Digest) (s : Comparing) :
    Pass Comparing (Called ℤ) → Prop
  | equal (hi : s.i < 32) (byte : serverByte env value s.i = hashBuf[s.i]) :
      CompareCase value hashBuf s (.again ⟨s.i + 1, if s.i = 31 then 1 else s.err, s.world⟩)
  | differs (hi : s.i < 32) (byte : serverByte env value s.i ≠ hashBuf[s.i]) :
      CompareCase value hashBuf s (.leave ⟨2, logLn "ERROR: hash mismatch" s.world⟩)
  | done (hi : ¬ s.i < 32) : CompareCase value hashBuf s (.leave ⟨s.err, s.world⟩)

theorem compareRound_cases (value : ℕ → UInt8) (hashBuf : Digest) (s : Comparing) :
    CompareCase env value hashBuf s (compareRound env value hashBuf s) := by
  unfold compareRound
  by_cases hi : s.i < 32
  · rw [dif_pos hi]
    by_cases hb : serverByte env value s.i = hashBuf[s.i]
    · rw [if_neg (not_not_intro hb)]
      exact .equal hi hb
    · rw [if_pos hb]
      exact .differs hi hb
  · rw [dif_neg hi]
    exact .done hi

theorem compareHash_spec (value : ℕ → UInt8) (hashBuf : Digest) (err : ℤ) (w : World) :
    ∃ r, compareHash env value hashBuf err w = some r ∧
      r.value = (if Matches env value hashBuf then 1 else 2) ∧ Quiet w r.world := by
  -- the bytes before `i` agree, and `err` is 1 only once the last one has been compared
  refine run_spec _
    (fun s => s.i ≤ 32 ∧ (∀ j (h : j < 32), j < s.i → serverByte env value j = hashBuf[j]) ∧
      (s.i = 32 → s.err = 1) ∧ Quiet w s.world)
    (fun s => 32 - s.i) _ ?_ ?_ ⟨Nat.zero_le _, by simp, by simp, .refl w⟩ (by simp)
  · intro s s' hinv hb
    obtain ⟨-, hall, -, hq⟩ := hinv
    have hcase := hb ▸ compareRound_cases env value hashBuf s
    cases hcase with
    | equal hi byte =>
      refine ⟨⟨hi, fun j hj hlt => ?_, fun h32 => if_pos (by simpa using h32), hq⟩,
        by dsimp only; omega⟩
      rcases Nat.lt_succ_iff_lt_or_eq.mp hlt with hlt | rfl
      · exact hall j hj hlt
      · exact byte
  · intro s r hinv hb
    obtain ⟨hle, hall, herr, hq⟩ := hinv
    have hcase := hb ▸ compareRound_cases env value hashBuf s
    cases hcase with
    | differs hi byte => exact ⟨(if_neg fun hm => byte (hm _ hi)).symm, hq.trans (.logLn _)⟩
    | done hi =>
      have h32 : s.i = 32 := by omega
      exact ⟨(herr h32).trans (if_pos fun j hj => hall j hj (h32 ▸ hj)).symm, hq⟩

def hexValue (c : UInt8) : Option ℕ :=
  if 48 ≤ c.toNat ∧ c.toNat ≤ 57 then some (c.toNat - 48)
  else if 65 ≤ c.toNat ∧ c.toNat ≤ 70 then some (c.toNat - 55)
  else if 97 ≤ c.toNat ∧ c.toNat ≤ 102 then some (c.toNat - 87)
  else none

def hexByte (high low : UInt8) : Option ℕ :=
  match hexValue high, hexValue low with
  | some h, some l => some (16 * h + l)
  | _, _ => none

theorem hexValue_lt {c : UInt8} {v : ℕ} (h : hexValue c = some v) : v < 16 := by
  unfold hexValue at h
  split_ifs at h <;>
  · cases h
    omega

theorem hexByte_lt {high low : UInt8} {v : ℕ} (h : hexByte high low = some v) : v < 256 := by
  unfold hexByte at h
  split at h
  next a b ha hb =>
    have := hexValue_lt ha
    have := hexValue_lt hb
    cases h
    omega
  next => cases h

def IsHex (value : ℕ → UInt8) : Prop :=
  ∀ i < 32, (hexByte (value (i * 2)) (value (i * 2 + 1))).isSome

def Spells (value : ℕ → UInt8) (d : Digest) : Prop :=
  ∀ i (h : i < 32), hexByte (value (i * 2)) (value (i * 2 + 1)) = some d[i].toNat

/-- `StrToInt` gives two hexadecimal digits their value. -/
def ReadsHex : Prop :=
  ∀ high low v, hexByte high low = some v → env.strToInt [high, low] 16 = v

theorem ofInt_toNat (v : ℕ) : (UInt8.ofInt v).toNat = v % 2 ^ 8 := by
  rw [UInt8.ofInt, UInt8.toNat_ofNat']
  omega

theorem spells_iff (hex : ReadsHex env) (value : ℕ → UInt8) (d : Digest) :
    Spells value d ↔ IsHex value ∧ Matches env value d := by
  constructor
  · intro h
    refine ⟨fun i hi => by simp [h i hi], fun i hi => UInt8.toNat_inj.mp ?_⟩
    rw [serverByte, hex _ _ _ (h i hi), ofInt_toNat]
    exact Nat.mod_eq_of_lt (UInt8.toNat_lt _)
  · intro hspells i hi
    obtain ⟨hhex, hmatch⟩ := hspells
    obtain ⟨v, hv⟩ := Option.isSome_iff_exists.mp (hhex i hi)
    have hbyte := hmatch i hi
    have hlt : v < 2 ^ 8 := hexByte_lt hv
    rw [serverByte, hex _ _ _ hv] at hbyte
    rw [hv, ← hbyte, ofInt_toNat, Nat.mod_eq_of_lt hlt]

theorem request_quiet (pool poolSize serverUrl : ℕ) (w : World) :
    Quiet w (request env locals pool poolSize serverUrl w).world := by
  let ctx := httpContextCtor env pool poolSize locals.context w
  let trans := httpTransactionCtor env ctx.value serverUrl "GET" locals.transaction ctx.world
  have hctx : Quiet w ctx.world := httpContextCtor_quiet ..
  have htrans : Quiet w trans.world := hctx.trans (httpTransactionCtor_quiet ..)
  exact (htrans.trans (.cellHttp env _)).trans (httpTransactionSendRequest_quiet ..)

theorem disconnect_quiet (c : Connection) (w : World) : Quiet w (disconnect env c w) :=
  (httpTransactionDtor_quiet env c.trans w).trans (httpContextDtor_quiet env c.ctx _)

theorem fetchHeader_quiet (trans : HttpTransaction) (w : World) :
    Quiet w (fetchHeader env locals trans w).world := by
  have hfirst : Quiet w _ := .cellHttp env (.getHeader trans.transId none)
  have hlogged := hfirst.trans (.logLn "ERROR: transaction error")
  unfold fetchHeader
  dsimp only
  split_ifs
  · exact (hlogged.trans (.cellHttp env _)).trans (.logLn _)
  · exact hlogged.trans (.cellHttp env _)
  · exact (hfirst.trans (.cellHttp env _)).trans (.logLn _)
  · exact hfirst.trans (.cellHttp env _)

theorem fetchHeader_value {trans : HttpTransaction} {w : World}
    (h : (fetchHeader env locals trans w).value.err = 0) :
    (fetchHeader env locals trans w).value.value = env.header := by
  unfold fetchHeader at *
  dsimp only at *
  split_ifs at h ⊢ <;> simp_all

theorem fetchHeader_err (trans : HttpTransaction) (w : World) :
    (fetchHeader env locals trans w).value.err = 0 ∨
      (fetchHeader env locals trans w).value.err = 2 := by
  unfold fetchHeader
  dsimp only
  split_ifs <;> simp

section Answer
variable (pool poolSize serverUrl : ℕ) (w : World)

def connected : Called Connection :=
  request env locals pool poolSize serverUrl (logLn "\nstart download update\n" w)

def fetched : Called HashHeader :=
  fetchHeader env locals (connected env locals pool poolSize serverUrl w).value.trans
    (connected env locals pool poolSize serverUrl w).world

structure Answered (status : ℤ) : Prop where
  room : ¬ (pool = 0 ∨ poolSize = 0)
  sent : ¬ (connected env locals pool poolSize serverUrl w).value.trans.err < 0
  status : (connected env locals pool poolSize serverUrl w).value.trans.statusCode = status

theorem fetched_quiet : Quiet w (fetched env locals pool poolSize serverUrl w).world :=
  ((Quiet.logLn _).trans (request_quiet ..)).trans (fetchHeader_quiet ..)

inductive UpdateCase : Called ℤ → Prop
  | refused {w' : World} (no : pool = 0 ∨ poolSize = 0) (quiet : Quiet w w') : UpdateCase ⟨2, w'⟩
  | unsent {w' : World} (room : ¬ (pool = 0 ∨ poolSize = 0))
      (err : (connected env locals pool poolSize serverUrl w).value.trans.err < 0)
      (quiet : Quiet w w') : UpdateCase ⟨2, w'⟩
  | other {w' : World} {status : ℤ}
      (answered : Answered env locals pool poolSize serverUrl w status) (not200 : status ≠ 200)
      (quiet : Quiet w w') :
      UpdateCase ⟨if status = 204 then 0
        else (fetched env locals pool poolSize serverUrl w).value.err, w'⟩
  | compared {w' : World} {d : Called Download}
      (answered : Answered env locals pool poolSize serverUrl w 200)
      (download : DownloadCase env downloadPath (some locals.hashBuf)
        (fetched env locals pool poolSize serverUrl w).world d)
      (file : w'.file = d.world.file) :
      UpdateCase ⟨if Matches env (fetched env locals pool poolSize serverUrl w).value.value
        (d.value.hashBuf.getD locals.hashBuf) then 1 else 2, w'⟩

theorem downloadUpdate_cases :
    ∃ r, downloadUpdate env locals pool poolSize serverUrl w = some r ∧
      UpdateCase env locals pool poolSize serverUrl w r ∧ Emits Event.IsRoutine w r.world := by
  by_cases hroom : pool = 0 ∨ poolSize = 0
  · have hq : Quiet w _ :=
      (Quiet.logLn "\nstart download update\n").trans (.logLn "ERROR: invalid pool size")
    exact ⟨_, if_pos hroom, .refused hroom hq, hq.emits⟩
  · let c := connected env locals pool poolSize serverUrl w
    let header := fetched env locals pool poolSize serverUrl w
    have hc : Quiet w c.world := (Quiet.logLn _).trans (request_quiet ..)
    have hheader : Quiet w header.world := fetched_quiet ..
    by_cases hsent : c.value.trans.err < 0
    · have hq : Quiet w _ := (hc.trans (disconnect_quiet env c.value _)).trans
        (.logLn "ERROR: failed to make request")
      refine ⟨_, ?_, .unsent hroom hsent hq, hq.emits⟩
      exact (if_neg hroom).trans (if_pos hsent)
    · by_cases hstatus : c.value.trans.statusCode = 200
      · obtain ⟨d, hd, hcase, hemits⟩ :=
          httpDownloadFile_cases env c.value.trans downloadPath (some locals.hashBuf) header.world
        obtain ⟨r, hr, hv, hq⟩ := compareHash_spec env header.value.value
          (d.value.hashBuf.getD locals.hashBuf)
          (if c.value.trans.statusCode = 204 then 0 else header.value.err)
          (logHeader header.value.value d.world)
        have hend : Quiet d.world (disconnect env c.value r.world) :=
          ((Quiet.logHeader _).trans hq).trans (disconnect_quiet ..)
        refine ⟨⟨r.value, disconnect env c.value r.world⟩, ?_,
          hv ▸ .compared ⟨hroom, hsent, hstatus⟩ hcase hend.file,
          (hheader.emits.trans (hemits.mono fun _ he => he.isRoutine)).trans hend.emits⟩
        refine (if_neg hroom).trans ((if_neg hsent).trans ((if_pos hstatus).trans ?_))
        exact Option.bind_eq_some_iff.mpr ⟨d, hd, Option.bind_eq_some_iff.mpr ⟨r, hr, rfl⟩⟩
      · have hq : Quiet w _ := hheader.trans (disconnect_quiet env c.value _)
        refine ⟨_, ?_, .other ⟨hroom, hsent, rfl⟩ hstatus hq, hq.emits⟩
        exact (if_neg hroom).trans ((if_neg hsent).trans (if_neg hstatus))

def HeaderFetched : Prop := (fetched env locals pool poolSize serverUrl w).value.err = 0

/-- What an answer of 1 is to mean: the file holds the whole response body, and the
fetched header spells its hash. -/
structure Verified (r : Called ℤ) : Prop where
  header : HeaderFetched env locals pool poolSize serverUrl w
  body : ∃ body, responseBody w.incoming = some body ∧ r.world.file downloadPath = some body ∧
    Spells env.header (env.sha256 body)

def Downloads : Prop :=
  Completes env downloadPath (fetched env locals pool poolSize serverUrl w).world

/-- When an answer of 1 can be trusted. -/
inductive Trustworthy : Prop
  | unanswered (no : ¬ Answered env locals pool poolSize serverUrl w 200)
  | downloadRefused (downloads : Downloads env locals pool poolSize serverUrl w)
      (differs : ∀ body, responseBody w.incoming = some body →
        ¬ Matches env (fetched env locals pool poolSize serverUrl w).value.value (env.sha256 body))
  | staleRefused (no : ¬ Downloads env locals pool poolSize serverUrl w)
      (differs :
        ¬ Matches env (fetched env locals pool poolSize serverUrl w).value.value locals.hashBuf)
  | complete (downloads : Downloads env locals pool poolSize serverUrl w)
      (header : HeaderFetched env locals pool poolSize serverUrl w) (hex : IsHex env.header)
  | alreadyThere (header : HeaderFetched env locals pool poolSize serverUrl w)
      (unopened : env.opens (fetched env locals pool poolSize serverUrl w).world.now = false)
      (there : ∃ body, responseBody w.incoming = some body ∧ w.file downloadPath = some body ∧
        Spells env.header (env.sha256 body))

variable {env locals pool poolSize serverUrl w}

theorem HeaderFetched.value (h : HeaderFetched env locals pool poolSize serverUrl w) :
    (fetched env locals pool poolSize serverUrl w).value.value = env.header :=
  fetchHeader_value env locals h

theorem verified_iff_of_incomplete {r : Called ℤ}
    (answered : Answered env locals pool poolSize serverUrl w 200)
    (no : ¬ Downloads env locals pool poolSize serverUrl w)
    (accepted : Matches env (fetched env locals pool poolSize serverUrl w).value.value
      locals.hashBuf)
    (file : ∀ body, responseBody w.incoming = some body → r.world.file downloadPath = some body →
      env.opens (fetched env locals pool poolSize serverUrl w).world.now = false)
    (same : env.opens (fetched env locals pool poolSize serverUrl w).world.now = false →
      r.world.file = w.file) :
    Verified env locals pool poolSize serverUrl w r ↔
      Trustworthy env locals pool poolSize serverUrl w := by
  constructor
  · intro verified
    obtain ⟨header, body, hb, hf, hs⟩ := verified
    have hun := file body hb hf
    exact .alreadyThere header hun ⟨body, hb, by rw [← same hun, hf], hs⟩
  · intro h
    cases h with
    | unanswered h => exact absurd answered h
    | downloadRefused downloads => exact absurd downloads no
    | staleRefused _ differs => exact absurd accepted differs
    | complete downloads => exact absurd downloads no
    | alreadyThere header unopened there =>
      obtain ⟨body, hb, hf, hs⟩ := there
      exact ⟨header, body, hb, by rw [same unopened, hf], hs⟩

theorem verified_iff_of_complete {r : Called ℤ} {body : List UInt8} (hex : ReadsHex env)
    (answered : Answered env locals pool poolSize serverUrl w 200)
    (downloads : Downloads env locals pool poolSize serverUrl w)
    (response : responseBody w.incoming = some body)
    (file : r.world.file downloadPath = some body)
    (accepted : Matches env (fetched env locals pool poolSize serverUrl w).value.value
      (env.sha256 body)) :
    Verified env locals pool poolSize serverUrl w r ↔
      Trustworthy env locals pool poolSize serverUrl w := by
  constructor
  · intro verified
    obtain ⟨header, body', -, -, hs⟩ := verified
    exact .complete downloads header ((spells_iff env hex _ _).mp hs).1
  · intro h
    cases h with
    | unanswered h => exact absurd answered h
    | downloadRefused _ differs => exact absurd accepted (differs body response)
    | staleRefused h => exact absurd downloads h
    | complete _ header isHex =>
      refine ⟨header, body, response, file, (spells_iff env hex _ _).mpr ⟨isHex, ?_⟩⟩
      rwa [header.value] at accepted
    | alreadyThere _ unopened =>
      rw [downloads.opens] at unopened
      cases unopened

/-- `DownloadUpdate` returns, and an answer of 1 is right exactly in the trustworthy cases. -/
theorem downloadUpdate_verified_iff (hex : ReadsHex env) :
    ∃ r, downloadUpdate env locals pool poolSize serverUrl w = some r ∧
      ((r.value = 1 → Verified env locals pool poolSize serverUrl w r) ↔
        Trustworthy env locals pool poolSize serverUrl w) := by
  obtain ⟨r, hr, hcase, -⟩ := downloadUpdate_cases env locals pool poolSize serverUrl w
  refine ⟨r, hr, ?_⟩
  cases hcase with
  | refused no quiet => exact iff_of_true (by simp) (.unanswered fun h => h.room no)
  | unsent room err quiet => exact iff_of_true (by simp) (.unanswered fun h => h.sent err)
  | other answered not200 quiet =>
    have herr : (fetched env locals pool poolSize serverUrl w).value.err = 0 ∨
      (fetched env locals pool poolSize serverUrl w).value.err = 2 := fetchHeader_err ..
    refine iff_of_true (fun h1 => ?_)
      (.unanswered fun h => not200 (answered.status.symm.trans h.status))
    dsimp only at h1
    split_ifs at h1 <;> omega
  | @compared w' d answered download file =>
    have hq := fetched_quiet env locals pool poolSize serverUrl w
    cases download with
    | unopened no same =>
      have hno : ¬ Downloads env locals pool poolSize serverUrl w := fun h => by
        rw [h.opens] at no
        cases no
      by_cases accepted : Matches env (fetched env locals pool poolSize serverUrl w).value.value
          locals.hashBuf
      · refine (imp_iff_right (if_pos accepted)).trans ?_
        exact verified_iff_of_incomplete answered hno accepted (fun _ _ _ => no)
          fun _ => file.trans (same.trans hq.file)
      · exact iff_of_true (fun h1 => absurd (h1.symm.trans (if_neg accepted)) (by decide))
          (.staleRefused hno accepted)
    | broken opens never short =>
      have hno : ¬ Downloads env locals pool poolSize serverUrl w := fun h => never h.stores
      by_cases accepted : Matches env (fetched env locals pool poolSize serverUrl w).value.value
          locals.hashBuf
      · refine (imp_iff_right (if_pos accepted)).trans ?_
        refine verified_iff_of_incomplete answered hno accepted (fun body hb hf => ?_) fun hun => ?_
        · rw [hq.incoming, hb] at short
          rcases short with hnone | hne
          · cases hnone
          · exact absurd ((congrFun file _).symm.trans hf) hne
        · rw [opens] at hun
          cases hun
      · exact iff_of_true (fun h1 => absurd (h1.symm.trans (if_neg accepted)) (by decide))
          (.staleRefused hno accepted)
    | @complete w₁ body completes response stored =>
      rw [hq.incoming] at response
      have hstored : w'.file downloadPath = some body := (congrFun file _).trans stored
      by_cases accepted : Matches env (fetched env locals pool poolSize serverUrl w).value.value
          (env.sha256 body)
      · refine (imp_iff_right (if_pos accepted)).trans ?_
        exact verified_iff_of_complete hex answered completes response hstored accepted
      · refine iff_of_true (fun h1 => absurd (h1.symm.trans (if_neg accepted)) (by decide))
          (.downloadRefused completes fun body' hb => ?_)
        obtain rfl : body = body' := Option.some.inj (response.symm.trans hb)
        exact accepted

end Answer

section Layers
variable (pool poolSize serverUrl : ℕ) (w : World)

inductive Accepted : Prop
  | downloaded {body : List UInt8} (answered : Answered env locals pool poolSize serverUrl w 200)
      (downloads : Downloads env locals pool poolSize serverUrl w)
      (response : responseBody w.incoming = some body)
      (agrees : Matches env (fetched env locals pool poolSize serverUrl w).value.value
        (env.sha256 body))
  | stale (answered : Answered env locals pool poolSize serverUrl w 200)
      (no : ¬ Downloads env locals pool poolSize serverUrl w)
      (agrees : Matches env (fetched env locals pool poolSize serverUrl w).value.value
        locals.hashBuf)

inductive UpToDate : Prop
  | noContent (answered : Answered env locals pool poolSize serverUrl w 204)
  | unchanged {status : ℤ} (answered : Answered env locals pool poolSize serverUrl w status)
      (not200 : status ≠ 200) (header : HeaderFetched env locals pool poolSize serverUrl w)

variable {env locals pool poolSize serverUrl w}

theorem Answered.unique {status status' : ℤ}
    (h : Answered env locals pool poolSize serverUrl w status)
    (h' : Answered env locals pool poolSize serverUrl w status') : status = status' :=
  h.status.symm.trans h'.status

theorem Accepted.answered (h : Accepted env locals pool poolSize serverUrl w) :
    Answered env locals pool poolSize serverUrl w 200 := by
  cases h with
  | downloaded answered => exact answered
  | stale answered => exact answered

theorem UpToDate.answered (h : UpToDate env locals pool poolSize serverUrl w) :
    ∃ status, status ≠ 200 ∧ Answered env locals pool poolSize serverUrl w status := by
  cases h with
  | noContent answered => exact ⟨204, by decide, answered⟩
  | unchanged answered not200 => exact ⟨_, not200, answered⟩

theorem unanswered (no : ∀ status, ¬ Answered env locals pool poolSize serverUrl w status) :
    ((2 : ℤ) = 1 ↔ Accepted env locals pool poolSize serverUrl w) ∧
      ((2 : ℤ) = 0 ↔ UpToDate env locals pool poolSize serverUrl w) :=
  ⟨iff_of_false (by decide) fun h => no _ h.answered,
    iff_of_false (by decide) fun h => let ⟨_, _, ha⟩ := h.answered; no _ ha⟩

theorem accepted_iff {d : Called Download}
    (answered : Answered env locals pool poolSize serverUrl w 200)
    (download : DownloadCase env downloadPath (some locals.hashBuf)
      (fetched env locals pool poolSize serverUrl w).world d) :
    Accepted env locals pool poolSize serverUrl w ↔
      Matches env (fetched env locals pool poolSize serverUrl w).value.value
        (d.value.hashBuf.getD locals.hashBuf) := by
  have hq := fetched_quiet env locals pool poolSize serverUrl w
  have hstale (no : ¬ Downloads env locals pool poolSize serverUrl w) :
      Accepted env locals pool poolSize serverUrl w ↔
        Matches env (fetched env locals pool poolSize serverUrl w).value.value locals.hashBuf := by
    refine ⟨fun h => ?_, .stale answered no⟩
    cases h with
    | downloaded _ downloads => exact absurd downloads no
    | stale _ _ agrees => exact agrees
  cases download with
  | unopened no same =>
    refine hstale fun h => ?_
    rw [h.opens] at no
    cases no
  | broken opens never short => exact hstale fun h => never h.stores
  | @complete w₁ body completes response stored =>
    rw [hq.incoming] at response
    refine ⟨fun h => ?_, .downloaded answered completes response⟩
    cases h with
    | downloaded _ _ response' agrees =>
      rw [response] at response'
      cases response'
      exact agrees
    | stale _ no => exact absurd completes no

variable (env locals pool poolSize serverUrl w)

theorem downloadUpdate_answers :
    ∃ r, downloadUpdate env locals pool poolSize serverUrl w = some r ∧
      Emits Event.IsRoutine w r.world ∧ (r.value = 0 ∨ r.value = 1 ∨ r.value = 2) ∧
      (r.value = 1 ↔ Accepted env locals pool poolSize serverUrl w) ∧
      (r.value = 0 ↔ UpToDate env locals pool poolSize serverUrl w) := by
  obtain ⟨r, hr, hcase, hemits⟩ := downloadUpdate_cases env locals pool poolSize serverUrl w
  refine ⟨r, hr, hemits, ?_⟩
  cases hcase with
  | refused no quiet => exact ⟨by simp, unanswered fun _ h => h.room no⟩
  | unsent room err quiet => exact ⟨by simp, unanswered fun _ h => h.sent err⟩
  | @other w' status answered not200 quiet =>
    have herr : (fetched env locals pool poolSize serverUrl w).value.err = 0 ∨
      (fetched env locals pool poolSize serverUrl w).value.err = 2 := fetchHeader_err ..
    by_cases h204 : status = 204
    · subst h204
      exact ⟨by simp, iff_of_false (by simp) fun h => not200 (answered.unique h.answered),
        iff_of_true rfl (.noContent answered)⟩
    · simp only [h204, if_false]
      refine ⟨by omega, iff_of_false (by omega) fun h => not200 (answered.unique h.answered),
        .unchanged answered not200, fun h => ?_⟩
      cases h with
      | noContent h => exact absurd (answered.unique h) h204
      | unchanged _ _ header => exact header
  | @compared w' d answered download file =>
    have hno : ¬ UpToDate env locals pool poolSize serverUrl w := fun h =>
      let ⟨_, hne, ha⟩ := h.answered
      hne (ha.unique answered)
    rw [accepted_iff answered download]
    split_ifs with hm
    · exact ⟨by simp, iff_of_true rfl hm, iff_of_false (by simp) hno⟩
    · exact ⟨by simp, iff_of_false (by simp) hm, iff_of_false (by simp) hno⟩

inductive TryCase : Called ℤ → Prop
  | noNetwork {w' : World} (down : (network env w).value = 0)
      (emits : Emits Event.IsRoutine w w') : TryCase ⟨2, w'⟩
  | answered {r : Called ℤ} {w' : World} (connects : (network env w).value ≠ 0)
      (download : downloadUpdate env locals (httpPool env w).value 65536 serverUrl
        (httpPool env w).world = some r)
      (other : r.value ≠ 1)
      (emits : Emits Event.IsRoutine (r.world.emit (.downloaded r.value)) w') :
      TryCase ⟨r.value, w'⟩
  | installed {r c : Called ℤ} (connects : (network env w).value ≠ 0)
      (download : downloadUpdate env locals (httpPool env w).value 65536 serverUrl
        (httpPool env w).world = some r)
      (one : r.value = 1)
      (copy : CopyCase env downloadPath installPath (released env (httpPool env w).value r) c) :
      TryCase ⟨1, logLn "No patchwork update available" c.world⟩

theorem tryUpdateAndInstall_cases :
    ∃ r, tryUpdateAndInstall env locals serverUrl w = some r ∧
      TryCase env locals serverUrl w r := by
  by_cases hnet : (network env w).value = 0
  · exact ⟨_, if_pos hnet, .noNetwork hnet (Quiet.sys env _).emits⟩
  · obtain ⟨r, hr, -, hthree, -⟩ := downloadUpdate_answers env locals (httpPool env w).value 65536
      serverUrl (httpPool env w).world
    have hreleased : Emits Event.IsRoutine (r.world.emit (.downloaded r.value))
        (released env (httpPool env w).value r) := ((Quiet.sys env _).trans (.sys env _)).emits
    by_cases h1 : r.value = 1
    · obtain ⟨c, hc, hcase⟩ := copyFile_cases env (show downloadPath ≠ installPath by decide)
        (released env (httpPool env w).value r)
      refine ⟨_, ?_, .installed hnet hr h1 hcase⟩
      refine (if_neg hnet).trans (Option.bind_eq_some_iff.mpr ⟨r, hr, (if_pos h1).trans ?_⟩)
      exact Option.bind_eq_some_iff.mpr ⟨c, hc, rfl⟩
    · by_cases h2 : r.value = 2
      · have hfailed : Quiet (released env (httpPool env w).value r) _ :=
          (Quiet.logLn "Update failed").trans (.errorDialog "Failed to update patchwork")
        refine ⟨_, ?_, .answered hnet hr h1 (hreleased.trans hfailed.emits)⟩
        exact (if_neg hnet).trans (Option.bind_eq_some_iff.mpr
          ⟨r, hr, (if_neg h1).trans ((if_pos h2).trans (by rw [h2]))⟩)
      · refine ⟨_, ?_, .answered hnet hr h1 hreleased⟩
        exact (if_neg hnet).trans (Option.bind_eq_some_iff.mpr
          ⟨r, hr, (if_neg h1).trans (if_neg h2)⟩)

end Layers

-- An environment in which no file opens, and a header that spells what the stack holds.
def parseHex (s : List UInt8) (base : ℕ) : ℤ :=
  s.foldl (fun v c => v * base + (hexValue c).getD 0) 0

def emptyHash : Digest := #v[
  0xe3, 0xb0, 0xc4, 0x42, 0x98, 0xfc, 0x1c, 0x14, 0x9a, 0xfb, 0xf4, 0xc8, 0x99, 0x6f, 0xb9, 0x24,
  0x27, 0xae, 0x41, 0xe4, 0x64, 0x9b, 0x93, 0x4c, 0xa4, 0x95, 0x99, 0x1b, 0x78, 0x52, 0xb8, 0x55]

def unopenedEnv : Env where
  opens _ := false
  reads _ := ⟨true, 2048⟩
  writes _ := ⟨true, 2048⟩
  code _ := 0
  handle n := n + 1
  statusCode := 200
  headerSize := 65
  header _ := 48
  sha256 _ := emptyHash
  strToInt := parseHex
  startModule := id

def staleLocals : Locals where
  context := ⟨0, 0⟩
  transaction := ⟨0, 0, 0⟩
  hashHeader _ := 0
  hashBuf := Vector.replicate 32 0

def freshWorld : World where
  file _ := none
  logged _ := []
  handle _ := none
  incoming := []
  mem _ := 0
  logFP := 0
  trace := []

theorem unopenedEnv_readsHex : ReadsHex unopenedEnv := by
  intro high low v h
  unfold hexByte at h
  split at h
  next a b ha hb =>
    cases h
    simp [unopenedEnv, parseHex, ha, hb]
    omega
  next => cases h

theorem downloadUpdate_unverified : ¬ ∀ (env : Env) (locals : Locals) (pool poolSize url : ℕ)
    (w : World) (r : Called ℤ), ReadsHex env →
    downloadUpdate env locals pool poolSize url w = some r → r.value = 1 →
    Verified env locals pool poolSize url w r := by
  intro h
  have hv : (downloadUpdate unopenedEnv staleLocals 1 65536 1 freshWorld).map
      (fun r => (r.value, r.world.file downloadPath)) = some (1, none) := by decide +kernel
  obtain ⟨r, hr, he⟩ := Option.map_eq_some_iff.mp hv
  obtain ⟨h1, hnone⟩ := Prod.mk.inj he
  obtain ⟨-, body, -, hf, -⟩ := h _ _ _ _ _ _ _ unopenedEnv_readsHex hr h1
  rw [hnone] at hf
  cases hf

theorem downloadUpdate_verified_iff_unopened :
    ∃ r, downloadUpdate unopenedEnv staleLocals 1 65536 1 freshWorld = some r ∧
      ((r.value = 1 → Verified unopenedEnv staleLocals 1 65536 1 freshWorld r) ↔
        Trustworthy unopenedEnv staleLocals 1 65536 1 freshWorld) :=
  downloadUpdate_verified_iff unopenedEnv_readsHex

/-- `InstallUpdate` leaves the installed file alone if it cannot open both files. Otherwise
it leaves an initial part of the download, the whole of it if no read or write fails or comes
back empty before the end. -/
theorem installUpdate_prefix (w : World) :
    ∃ r, installUpdate env installPath w = some r ∧
      r.world.file downloadPath = w.file downloadPath ∧
      (¬ OpensBoth env downloadPath w → r.world.file installPath = w.file installPath) ∧
      (OpensBoth env downloadPath w → ∃ content installed, w.file downloadPath = some content ∧
        r.world.file installPath = some installed ∧ installed <+: content ∧
        (Copies env (w.now + 2) content.length → installed = content)) := by
  obtain ⟨r, hr, hcase⟩ := copyFile_cases env (show downloadPath ≠ installPath by decide) w
  refine ⟨r, hr, ?_⟩
  cases hcase with
  | unopened no file =>
    exact ⟨congrFun file _, fun _ => congrFun file _, fun opens => absurd opens no⟩
  | @failed w' content k opens source copied emits never =>
    exact ⟨copied.source.trans source.symm, fun no => absurd opens no, fun _ =>
      ⟨content, content.take k, source, copied.target, List.take_prefix _ _,
        fun h => absurd h never⟩⟩
  | @finished w₁ w' content k opens source copied emits closes whole =>
    refine ⟨copied.source.trans source.symm, fun no => absurd opens no, fun _ =>
      ⟨content, content.take k, source, copied.target, List.take_prefix _ _, fun h => ?_⟩⟩
    exact Option.some.inj (copied.target.symm.trans (whole.mpr h))

def cutEnv : Env := { unopenedEnv with
  opens := fun _ => true
  writes := fun i => if i = 3 then ⟨true, 1⟩ else ⟨false, 0⟩ }

def downloadedWorld : World := { freshWorld with
  file := Function.update (Function.update freshWorld.file downloadPath (some [1, 2]))
    installPath (some [9]) }

theorem installUpdate_partial : ¬ ∀ (env : Env) (w : World) (r : Called ℤ),
    installUpdate env installPath w = some r →
    r.world.file installPath = w.file installPath ∨
      r.world.file installPath = w.file downloadPath := by
  intro h
  have hv : (installUpdate cutEnv installPath downloadedWorld).map
      (fun r => r.world.file installPath) = some (some [1]) := by decide +kernel
  obtain ⟨r, hr, hf⟩ := Option.map_eq_some_iff.mp hv
  have hwrong := h cutEnv downloadedWorld r hr
  rw [hf] at hwrong
  revert hwrong
  decide

end Patchwork.Update
