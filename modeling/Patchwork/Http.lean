import Patchwork.Fs

/-!
# The HTTP client

The contexts and transactions of `http.c`, and the download of a response body
into a file. A download completes when its file opens, no receive fails and every
write takes something; nothing else makes it return 1.
-/

namespace Patchwork.Http
open BoundedLoop Console Fs
variable (env : Env)

structure HttpContext where
  client : ℕ
  err : ℤ

structure HttpTransaction where
  transId : ℕ
  statusCode : ℤ
  err : ℤ

/-- `result` is what the local of that name holds before it is set. -/
def httpContextCtor (pool size : ℕ) (result : HttpContext) (w : World) : Called HttpContext :=
  let init := cellHttp env (.init pool size) w
  if init.value < 0 then ⟨{ result with err := init.value }, init.world⟩
  else
    let created := cellHttp env .createClient init.world
    ⟨{ client := if created.value < 0 then result.client else env.handle init.world.now
       err := created.value }, created.world⟩

def httpContextDtor (ctx : HttpContext) (w : World) : World :=
  (cellHttp env (.destroyClient ctx.client) (cellHttp env .endHttp w).world).world

def httpTransactionCtor (ctx : HttpContext) (uri : ℕ) (method : String)
    (result : HttpTransaction) (w : World) : Called HttpTransaction :=
  let parsed := cellHttp env (.parseUri uri) w
  if parsed.value < 0 then ⟨{ result with err := parsed.value }, parsed.world⟩
  else
    let created := cellHttp env (.createTransaction ctx.client method) parsed.world
    ⟨{ result with
       transId := if created.value < 0 then result.transId else env.handle parsed.world.now
       err := created.value }, created.world⟩

def httpTransactionDtor (trans : HttpTransaction) (w : World) : World :=
  (cellHttp env (.destroyTransaction trans.transId) w).world

def httpTransactionSendRequest (trans : HttpTransaction) (w : World) : Called HttpTransaction :=
  let sent := cellHttp env (.sendRequest trans.transId) w
  if sent.value < 0 then ⟨{ trans with err := sent.value }, sent.world⟩
  else
    let length := cellHttp env (.contentLength trans.transId) sent.world
    if length.value < 0 then ⟨{ trans with err := length.value }, length.world⟩
    else
      let status := cellHttp env (.statusCode trans.transId) length.world
      ⟨{ trans with
         statusCode := if status.value < 0 then trans.statusCode else env.statusCode
         err := status.value }, status.world⟩

section Quiet
variable (ctx : HttpContext) (trans : HttpTransaction) (w : World)

theorem httpContextCtor_quiet (pool size : ℕ) :
    Quiet w (httpContextCtor env pool size ctx w).world := by
  unfold httpContextCtor
  dsimp only
  split
  · exact .cellHttp env _
  · exact (Quiet.cellHttp env _).trans (.cellHttp env _)

theorem httpContextDtor_quiet : Quiet w (httpContextDtor env ctx w) :=
  (Quiet.cellHttp env _).trans (.cellHttp env _)

theorem httpTransactionCtor_quiet (uri : ℕ) (method : String) :
    Quiet w (httpTransactionCtor env ctx uri method trans w).world := by
  unfold httpTransactionCtor
  dsimp only
  split
  · exact .cellHttp env _
  · exact (Quiet.cellHttp env _).trans (.cellHttp env _)

theorem httpTransactionDtor_quiet : Quiet w (httpTransactionDtor env trans w) :=
  .cellHttp env _

theorem httpTransactionSendRequest_quiet :
    Quiet w (httpTransactionSendRequest env trans w).world := by
  have h₁ : Quiet w _ := .cellHttp env (.sendRequest trans.transId)
  have h₂ := h₁.trans (.cellHttp env (.contentLength trans.transId))
  unfold httpTransactionSendRequest
  dsimp only
  split
  · exact h₁
  · split
    · exact h₂
    · exact h₂.trans (.cellHttp env _)

end Quiet

/-- The receive loop's state: what the SHA-256 work area has been given so far. -/
structure Receiving where
  hashed : List UInt8
  world : World

/-- A round of the receive loop; it leaves with `none` where the source returns 0. -/
def receiveRound (fd trans : ℕ) (s : Receiving) : Pass Receiving (Called (Option (List UInt8))) :=
  let r := cellHttpRecvResponse trans s.world
  match r.value with
  | none => .leave ⟨none, r.world⟩
  | some bytes =>
    if bytes.length = 0 then .leave ⟨some s.hashed, r.world⟩
    else
      let written := writeAll env false fd bytes 0 r.world
      if written.value then .again ⟨s.hashed ++ bytes, written.world⟩
      else .leave ⟨none, written.world⟩

/-- What `HttpDownloadFile` returns and what it leaves in `hash_buf`, where it is given one. -/
structure Download where
  result : ℤ
  hashBuf : Option Digest

def httpDownloadFile (trans : HttpTransaction) (path : String) (hashBuf : Option Digest)
    (w : World) : Option (Called Download) :=
  let opened := cellFsOpen env path .wronlyCreatTrunc w
  match opened.value with
  | none => some ⟨⟨0, hashBuf⟩, opened.world⟩
  | some fd => do
    let rounds := opened.world.incoming.length + 1
    let r ← run (receiveRound env fd trans.transId) rounds ⟨[], opened.world⟩
    match r.value with
    | none => some ⟨⟨0, hashBuf⟩, r.world⟩
    | some hashed =>
      some ⟨⟨1, hashBuf.map fun _ => env.sha256 hashed⟩, cellFsClose fd r.world⟩

def responseBody : List Recv → Option (List UInt8)
  | [] => some []
  | .error :: _ => none
  | .chunk c :: rest =>
    if c.bytes.length = 0 then some [] else (responseBody rest).map (c.bytes ++ ·)

inductive Stores : ℕ → List Recv → Prop
  | exhausted {i : ℕ} : Stores i []
  | last {i : ℕ} {c : Chunk} {rest : List Recv} (none : c.bytes.length = 0) :
      Stores i (.chunk c :: rest)
  | chunk {i j : ℕ} {c : Chunk} {rest : List Recv} (some : c.bytes.length ≠ 0)
      (taken : Accepts env false (i + 1) c.bytes.length j) (stores : Stores j rest) :
      Stores i (.chunk c :: rest)

theorem stores_chunk_iff {i : ℕ} {c : Chunk} {rest : List Recv} (h : c.bytes.length ≠ 0) :
    Stores env i (.chunk c :: rest) ↔
      ∃ j, Accepts env false (i + 1) c.bytes.length j ∧ Stores env j rest := by
  constructor
  · intro hs
    cases hs with
    | last none => exact absurd none h
    | chunk some taken stores => exact ⟨_, taken, stores⟩
  · intro hstores
    obtain ⟨j, taken, stores⟩ := hstores
    exact .chunk h taken stores

section Receive
variable {env} {path : String} {fd trans p : ℕ}

structure Received (env : Env) (path : String) (hashed : List UInt8) (i : ℕ)
    (incoming : List Recv) (r : Called (Option (List UInt8))) : Prop where
  whole : Stores env i incoming → ∃ body, responseBody incoming = some body ∧
    r.value = some (hashed ++ body) ∧ r.world.file path = some (hashed ++ body)
  broken : ¬ Stores env i incoming → r.value = none ∧
    ∃ part, r.world.file path = some (hashed ++ part) ∧
      ∀ body, responseBody incoming = some body → part.length < body.length

theorem responseBody_chunk {c : Chunk} {rest : List Recv} (h : c.bytes.length ≠ 0) :
    responseBody (.chunk c :: rest) = (responseBody rest).map (c.bytes ++ ·) := if_neg h

section Step
variable {hashed : List UInt8} {i j k : ℕ} {c : Chunk} {rest : List Recv}
  {r : Called (Option (List UInt8))} {w : World}

theorem Received.step (h0 : c.bytes.length ≠ 0)
    (taken : Accepts env false (i + 1) c.bytes.length j)
    (h : Received env path (hashed ++ c.bytes) j rest r) :
    Received env path hashed i (.chunk c :: rest) r := by
  constructor
  · intro hs
    obtain ⟨j', htaken, hrest⟩ := (stores_chunk_iff env h0).mp hs
    obtain ⟨body, hb, hv, hf⟩ := h.whole (taken.unique env htaken ▸ hrest)
    exact ⟨c.bytes ++ body, by simp [responseBody_chunk h0, hb], by simpa using hv,
      by simpa using hf⟩
  · intro hs
    have hrest : ¬ Stores env j rest := fun hr => hs (.chunk h0 taken hr)
    obtain ⟨hv, part, hf, hshort⟩ := h.broken hrest
    refine ⟨hv, c.bytes ++ part, by simpa using hf, fun body hb => ?_⟩
    rw [responseBody_chunk h0] at hb
    obtain ⟨tail, ht, rfl⟩ := Option.map_eq_some_iff.mp hb
    simpa using hshort tail ht

theorem Received.cut (h0 : c.bytes.length ≠ 0)
    (never : ∀ j, ¬ Accepts env false (i + 1) c.bytes.length j)
    (hf : w.file path = some (hashed ++ c.bytes.take k)) (hk : k < c.bytes.length) :
    Received env path hashed i (.chunk c :: rest) ⟨none, w⟩ := by
  constructor
  · intro hs
    obtain ⟨j, htaken, -⟩ := (stores_chunk_iff env h0).mp hs
    exact absurd htaken (never j)
  · refine fun _ => ⟨rfl, c.bytes.take k, hf, fun body hb => ?_⟩
    rw [responseBody_chunk h0] at hb
    obtain ⟨tail, -, rfl⟩ := Option.map_eq_some_iff.mp hb
    simp
    omega

end Step

theorem receiveRounds_spec (env : Env) (trans : ℕ) {n : ℕ} {s : Receiving}
    (hh : s.world.handle fd = some ⟨path, p⟩)
    (hf : s.world.file path = some s.hashed) (hn : s.world.incoming.length < n) :
    ∃ r, run (receiveRound env fd trans) n s = some r ∧
      Received env path s.hashed s.world.now s.world.incoming r := by
  induction n generalizing s with
  | zero => omega
  | succ n ih =>
    cases hin : s.world.incoming with
    | nil =>
      refine ⟨⟨some s.hashed, s.world.emit (.http (.recvResponse trans) 0)⟩,
        run_leave (by simp [receiveRound, cellHttpRecvResponse, hin]) n, fun _ => ?_, fun h => ?_⟩
      · exact ⟨[], rfl, by simp, by simpa using hf⟩
      · exact absurd .exhausted h
    | cons first rest =>
      cases first with
      | error =>
        refine ⟨⟨none, { s.world with incoming := rest }.emit (.http (.recvResponse trans) (-1))⟩,
          run_leave (by simp [receiveRound, cellHttpRecvResponse, hin]) n, fun h => ?_, fun _ => ?_⟩
        · cases h
        · exact ⟨rfl, [], by simpa using hf, by simp [responseBody]⟩
      | chunk c =>
        let w₁ := { s.world with incoming := rest }.emit (.http (.recvResponse trans) 0)
        have hrecv : cellHttpRecvResponse trans s.world = ⟨some c.bytes, w₁⟩ := by
          simp [cellHttpRecvResponse, hin, w₁]
        -- a chunk without bytes ends the body; otherwise the inner loop decides
        by_cases h0 : c.bytes.length = 0
        · refine ⟨⟨some s.hashed, w₁⟩, run_leave (by simp [receiveRound, hrecv, h0]) n,
            fun _ => ?_, fun h => ?_⟩
          · exact ⟨[], by simp [responseBody, h0], by simp, by simpa [w₁] using hf⟩
          · exact absurd (.last h0) h
        · have hh₁ : w₁.handle fd = some ⟨path, p⟩ := hh
          have hf₁ : w₁.file path = some s.hashed := hf
          have hnow : w₁.now = s.world.now + 1 := by simp [w₁, World.now]
          obtain ⟨k, happ, hall, hshort⟩ := writeAll_appended env false c.bytes 0
            hh₁ (by simp [hf₁]) (Nat.zero_le _)
          have htaken {j : ℕ} := accepts_iff_writeAll env false c.bytes 0 hh₁
            (by simp [hf₁]) (j := j)
          have hfile := happ.file_self hf₁
          rw [Nat.sub_zero, hnow] at htaken
          rw [Nat.sub_zero] at hall hshort
          rw [List.drop_zero] at hfile
          cases hv : (writeAll env false fd c.bytes 0 w₁).value with
          | true =>
            rw [hall hv, List.take_length] at hfile
            have hrest : (writeAll env false fd c.bytes 0 w₁).world.incoming = rest := happ.incoming
            obtain ⟨r, hr, hrec⟩ := ih
              (s := ⟨s.hashed ++ c.bytes, (writeAll env false fd c.bytes 0 w₁).world⟩)
              (happ.handle ▸ hh₁) hfile (by
                rw [hin, List.length_cons] at hn
                simpa only [hrest] using Nat.lt_of_succ_lt_succ hn)
            refine ⟨r, ?_, .step h0 (htaken.mpr ⟨hv, rfl⟩) (hrest ▸ hrec)⟩
            rw [run_again (by simp [receiveRound, hrecv, h0, hv]; rfl), hr]
          | false =>
            refine ⟨⟨none, (writeAll env false fd c.bytes 0 w₁).world⟩,
              run_leave (by simp [receiveRound, hrecv, h0, hv]) n, ?_⟩
            exact .cut h0 (fun j ht => by simpa [hv] using htaken.mp ht) hfile (hshort rfl hv)

end Receive

def roundWorld : Pass Receiving (Called (Option (List UInt8))) → World
  | .again s => s.world
  | .leave r => r.world

def IsTransfer (trans : ℕ) (e : Event) : Prop :=
  e.IsFile ∨ ∃ code, e = .http (.recvResponse trans) code

theorem IsTransfer.isRoutine {trans : ℕ} {e : Event} (h : IsTransfer trans e) : e.IsRoutine := by
  obtain hfile | ⟨code, rfl⟩ := h
  · exact hfile.isRoutine
  · trivial

theorem IsTransfer.receives {fd trans : ℕ} {e : Event}
    (h : e.Uses fd ∨ ∃ code, e = .http (.recvResponse trans) code) : IsTransfer trans e :=
  h.imp_left fun he => he.isFile

theorem receiveRound_uses (fd trans : ℕ) (s : Receiving) :
    Emits (fun e => e.Uses fd ∨ ∃ code, e = .http (.recvResponse trans) code) s.world
      (roundWorld (receiveRound env fd trans s)) := by
  have hrecv : Emits (fun e => e.Uses fd ∨ ∃ code, e = .http (.recvResponse trans) code) s.world
      (cellHttpRecvResponse trans s.world).world := by
    unfold cellHttpRecvResponse
    dsimp only
    split <;> exact .one (.inr ⟨_, rfl⟩) rfl
  unfold receiveRound
  dsimp only
  split
  · exact hrecv
  · split
    · exact hrecv
    · have hwritten (bytes : List UInt8) := hrecv.trans
        ((writeAll_uses env false fd bytes 0 _).mono fun _ he => .inl he)
      split <;> exact hwritten _

theorem receiveRounds_uses {fd trans n : ℕ} {s : Receiving} {r : Called (Option (List UInt8))}
    (h : run (receiveRound env fd trans) n s = some r) :
    Emits (fun e => e.Uses fd ∨ ∃ code, e = .http (.recvResponse trans) code) s.world r.world := by
  refine run_invariant _
    (fun s' => Emits (fun e => e.Uses fd ∨ ∃ code, e = .http (.recvResponse trans) code)
      s.world s'.world)
    (fun r => Emits (fun e => e.Uses fd ∨ ∃ code, e = .http (.recvResponse trans) code)
      s.world r.world)
    (fun s₁ s₂ hI hb => hI.trans ?_) (fun s₁ r hI hb => hI.trans ?_) (.of_eq rfl) h
  · simpa only [hb, roundWorld] using receiveRound_uses env fd trans s₁
  · simpa only [hb, roundWorld] using receiveRound_uses env fd trans s₁

structure Completes (path : String) (w : World) : Prop where
  opens : env.opens w.now = true
  stores : Stores env (w.now + 1) w.incoming

inductive DownloadCase (path : String) (hashBuf : Option Digest) (w : World) :
    Called Download → Prop
  | unopened {w' : World} (no : env.opens w.now = false) (file : w'.file = w.file) :
      DownloadCase path hashBuf w ⟨⟨0, hashBuf⟩, w'⟩
  | broken {w' : World} (opens : env.opens w.now = true)
      (never : ¬ Stores env (w.now + 1) w.incoming)
      (short : responseBody w.incoming = none ∨ w'.file path ≠ responseBody w.incoming) :
      DownloadCase path hashBuf w ⟨⟨0, hashBuf⟩, w'⟩
  | complete {w' : World} {body : List UInt8} (completes : Completes env path w)
      (response : responseBody w.incoming = some body) (file : w'.file path = some body) :
      DownloadCase path hashBuf w ⟨⟨1, hashBuf.map fun _ => env.sha256 body⟩, w'⟩

theorem httpDownloadFile_opened (trans : HttpTransaction) {path : String}
    (hashBuf : Option Digest) {w : World} (ho : env.opens w.now = true) :
    httpDownloadFile env trans path hashBuf w =
      (run (receiveRound env (w.now + 1) trans.transId) (w.incoming.length + 1)
        ⟨[], afterOpen path .wronlyCreatTrunc w⟩).map fun r => match r.value with
          | none => ⟨⟨0, hashBuf⟩, r.world⟩
          | some hashed =>
            ⟨⟨1, hashBuf.map fun _ => env.sha256 hashed⟩, cellFsClose (w.now + 1) r.world⟩ := by
  rw [httpDownloadFile, cellFsOpen_pos env ⟨ho, by simp⟩]
  dsimp only
  rw [Option.map_eq_bind]
  refine Option.bind_congr fun r _ => ?_
  simp only [Function.comp_apply]
  split <;> rfl

theorem httpDownloadFile_cases (trans : HttpTransaction) (path : String)
    (hashBuf : Option Digest) (w : World) :
    ∃ r, httpDownloadFile env trans path hashBuf w = some r ∧
      DownloadCase env path hashBuf w r ∧ Emits (IsTransfer trans.transId) w r.world := by
  by_cases ho : env.opens w.now = true
  · let w₁ := afterOpen path .wronlyCreatTrunc w
    obtain ⟨r, hr, hrec⟩ := receiveRounds_spec env trans.transId (s := ⟨[], w₁⟩)
      (n := w.incoming.length + 1)
      (show w₁.handle (w.now + 1) = some ⟨path, 0⟩ by simp [w₁]) (by simp [w₁])
      (Nat.lt_succ_self _)
    have hemits : Emits (IsTransfer trans.transId) w r.world :=
      Emits.trans (.one (.inl (by trivial)) rfl)
        ((receiveRounds_uses env hr).mono fun _ he => .receives he)
    have hnow : w₁.now = w.now + 1 := afterOpen_now
    rw [httpDownloadFile_opened env trans hashBuf ho, hr, Option.map_some]
    by_cases hs : Stores env (w.now + 1) w.incoming
    · obtain ⟨body, hb, hv, hf⟩ := hrec.whole (hnow.symm ▸ hs)
      simp only [hv, List.nil_append] at hf ⊢
      exact ⟨_, rfl, .complete ⟨ho, hs⟩ hb hf,
        hemits.trans (cellFsClose_emits.mono fun _ he => .inl he)⟩
    · obtain ⟨hv, part, hf, hshort⟩ := hrec.broken (hnow.symm ▸ hs)
      simp only [hv]
      refine ⟨_, rfl, .broken ho hs ?_, hemits⟩
      cases hb : responseBody w.incoming with
      | none => exact .inl rfl
      | some body =>
        refine .inr fun he => ?_
        have hlt := hshort body hb
        rw [hf, Option.some.injEq] at he
        simp only [List.nil_append] at he
        rw [he] at hlt
        exact Nat.lt_irrefl _ hlt
  · rw [httpDownloadFile, cellFsOpen_neg env (by simp [Opens, ho])]
    exact ⟨_, rfl, .unopened (by simpa using ho) rfl, .one (.inl (by trivial)) rfl⟩

end Patchwork.Http
