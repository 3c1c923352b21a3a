import Patchwork.Brackets
import Patchwork.Update

/-!
# The resources of an update

Network, memory pool, HTTP library, client and transaction, as one call of
`TryUpdateAndInstall` acquires, uses and releases them. The destructors run on
every path and release the HTTP library before the client that was made with it,
so no run that comes to them is well bracketed.
-/

namespace Patchwork.Resources
open BoundedLoop Brackets Console Fs Http Update

inductive Resource where
  | network
  | pool (addr : ℕ)
  | http
  | client (id : ℕ)
  | transaction (id : ℕ)
deriving DecidableEq, Repr

def acquired (code : ℤ) (r : Resource) : List (Action Resource) :=
  if code < 0 then [] else [.acquire r]

variable (env : Env)

/-- What the call behind the `n`-th event of a trace does to the resources. -/
def actions (n : ℕ) : Event → List (Action Resource)
  | .sys .initializeNetwork code => acquired code .network
  | .sys .finalizeNetwork _ => [.release .network]
  | .sys (.allocateMemory _) code => acquired code (.pool (env.handle n))
  | .sys (.freeMemory addr) _ => [.release (.pool addr)]
  | .http (.init pool _) code => .use (.pool pool) :: acquired code .http
  | .http .createClient code => .use .http :: acquired code (.client (env.handle n))
  | .http (.createTransaction client _) code =>
    .use (.client client) :: acquired code (.transaction (env.handle n))
  | .http (.addHeader id) _ => [.use (.transaction id)]
  | .http (.sendRequest id) _ => [.use (.transaction id)]
  | .http (.contentLength id) _ => [.use (.transaction id)]
  | .http (.statusCode id) _ => [.use (.transaction id)]
  | .http (.getHeader id _) _ => [.use (.transaction id)]
  | .http (.recvResponse id) _ => [.use (.transaction id)]
  | .http (.destroyTransaction id) _ => [.release (.transaction id)]
  | .http .endHttp _ => [.release .http]
  | .http (.destroyClient client) _ => [.release (.client client)]
  | _ => []

def actionsFrom (n : ℕ) (es : List Event) : List (Action Resource) :=
  (es.zipIdx n).flatMap fun p => actions env p.2 p.1

def Performs (w : World) (as : List (Action Resource)) (w' : World) : Prop :=
  ∃ es, w'.trace = w.trace ++ es ∧ actionsFrom env w.now es = as

def Attempts (w w' : World) : Prop :=
  ∃ es result, w'.trace = w.trace ++ es ∧ .downloaded result ∈ es

/-- What is acquired is released in the reverse order and nothing else is touched; a
download is attempted exactly when the network came up. -/
structure Managed (w w' : World) : Prop where
  bracketed : ∃ as, Performs env w as w' ∧ WellBracketed [] as
  attempted : Attempts w w' ↔ 0 ≤ (network env w).value

namespace Performs
variable {env} {w w₁ w₂ : World} {as bs : List (Action Resource)} {e : Event}

theorem trans (h : Performs env w as w₁) (h' : Performs env w₁ bs w₂) :
    Performs env w (as ++ bs) w₂ := by
  obtain ⟨es, he, rfl⟩ := h
  obtain ⟨es', he', rfl⟩ := h'
  refine ⟨es ++ es', by rw [he', he, List.append_assoc], ?_⟩
  have hnow : w₁.now = w.now + es.length := by simp [World.now, he]
  rw [actionsFrom, List.zipIdx_append, List.flatMap_append, hnow]
  rfl

theorem one (h : w₁.trace = w.trace ++ [e]) : Performs env w (actions env w.now e) w₁ :=
  ⟨[e], h, by simp [actionsFrom]⟩

theorem unique (h : Performs env w as w₁) (h' : Performs env w bs w₁) : as = bs := by
  obtain ⟨es, he, rfl⟩ := h
  obtain ⟨es', he', rfl⟩ := h'
  rw [List.append_cancel_left (he.symm.trans he')]

theorem of_emits {P : Event → Prop} {Q : Action Resource → Prop}
    (hPQ : ∀ e, P e → ∀ n, ∀ a ∈ actions env n e, Q a) (h : Emits P w w₁) :
    ∃ as, Performs env w as w₁ ∧ ∀ a ∈ as, Q a := by
  obtain ⟨es, he, hP⟩ := h
  refine ⟨_, ⟨es, he, rfl⟩, fun a ha => ?_⟩
  obtain ⟨p, hp, ha⟩ := List.mem_flatMap.mp ha
  exact hPQ p.1 (hP p.1 (List.fst_mem_of_mem_zipIdx hp)) p.2 a ha

end Performs

def IsTransaction : Resource → Prop
  | .transaction _ => True
  | _ => False

def IsRequest : Event → Prop
  | .opened .. | .read .. | .written .. | .closed .. | .log .. => True
  | .http (.parseUri _) _ | .http (.createTransaction _ _) _ | .http (.addHeader _) _ => True
  | .http (.sendRequest _) _ | .http (.contentLength _) _ | .http (.statusCode _) _ => True
  | .http (.getHeader _ _) _ | .http (.recvResponse _) _ => True
  | _ => False

def IsInstall : Event → Prop
  | .opened .. | .read .. | .written .. | .closed .. => True
  | .log .. | .dialog .. | .copied .. => True
  | _ => False

section Download
variable {env} {w w₁ : World} {e : Event}

theorem IsRequest.file (h : e.IsFile) : IsRequest e := by
  cases e <;> trivial

theorem IsInstall.file (h : e.IsFile) : IsInstall e := by
  cases e <;> trivial

theorem IsRequest.transfer {trans : ℕ} (h : IsTransfer trans e) : IsRequest e := by
  obtain hfile | ⟨code, rfl⟩ := h
  · exact .file hfile
  · trivial

theorem IsInstall.silent (h : IsInstall e) (n : ℕ) : actions env n e = [] := by
  cases e <;> first | rfl | exact absurd h not_false

theorem IsRequest.opens (h : IsRequest e) (n : ℕ) :
    ∀ a ∈ actions env n e, a.Opens IsTransaction := by
  intro a ha
  cases e with
  | http call code =>
    cases call with
    | createTransaction client method =>
      rcases List.mem_cons.mp ha with rfl | ha
      · trivial
      · unfold acquired at ha
        split at ha
        · cases ha
        · rw [List.mem_singleton.mp ha]
          trivial
    | _ => first
      | exact absurd h not_false
      | simp [actions] at ha <;> rw [ha] <;> trivial
  | _ => first
    | exact absurd h not_false
    | simp [actions] at ha

variable (env)

theorem httpTransactionCtor_emits (ctx : HttpContext) (uri : ℕ) (method : String)
    (result : HttpTransaction) :
    Emits IsRequest w (httpTransactionCtor env ctx uri method result w).world := by
  have hparse : Emits IsRequest w (cellHttp env (.parseUri uri) w).world := .one (by trivial) rfl
  unfold httpTransactionCtor
  dsimp only
  split
  · exact hparse
  · exact hparse.trans (.one (by trivial) rfl)

theorem httpTransactionSendRequest_emits (trans : HttpTransaction) :
    Emits IsRequest w (httpTransactionSendRequest env trans w).world := by
  have h₁ : Emits IsRequest w (cellHttp env (.sendRequest trans.transId) w).world :=
    .one (by trivial) rfl
  have h₂ : Emits IsRequest w (cellHttp env (.contentLength trans.transId)
      (cellHttp env (.sendRequest trans.transId) w).world).world := h₁.emit (by trivial)
  unfold httpTransactionSendRequest
  dsimp only
  split
  · exact h₁
  · split
    · exact h₂
    · exact h₂.trans (.one (by trivial) rfl)

theorem fetchHeader_emits (locals : Locals) (trans : HttpTransaction) :
    Emits IsRequest w (fetchHeader env locals trans w).world := by
  have hget (room : Option ℕ) (w : World) :
      Emits IsRequest w (cellHttp env (.getHeader trans.transId room) w).world :=
    .one (by trivial) rfl
  have hlog (s : String) (w : World) : Emits IsRequest w (logLn s w) := .one (by trivial) rfl
  unfold fetchHeader
  dsimp only
  split_ifs
  · exact (((hget _ w).trans (hlog _ _)).trans (hget _ _)).trans (hlog _ _)
  · exact ((hget _ w).trans (hlog _ _)).trans (hget _ _)
  · exact ((hget _ w).trans (hget _ _)).trans (hlog _ _)
  · exact (hget _ w).trans (hget _ _)

theorem compareHash_emits (value : ℕ → UInt8) (hashBuf : Digest) {err : ℤ} {r : Called ℤ}
    (h : compareHash env value hashBuf err w = some r) : Emits IsRequest w r.world := by
  refine run_invariant _ (fun s => Emits IsRequest w s.world)
    (fun r => Emits IsRequest w r.world) (fun s s' hI hb => ?_) (fun s r hI hb => ?_)
    (.of_eq rfl) h
  · have hcase := hb ▸ compareRound_cases env value hashBuf s
    cases hcase with
    | equal => exact hI
  · have hcase := hb ▸ compareRound_cases env value hashBuf s
    cases hcase with
    | differs => exact hI.emit (by trivial)
    | done => exact hI

end Download

section Disconnects
variable (locals : Locals) (pool poolSize serverUrl : ℕ) (w : World)

def context : Called HttpContext :=
  httpContextCtor env pool poolSize locals.context (logLn "\nstart download update\n" w)

theorem connected_emits : Emits IsRequest (context env locals pool poolSize w).world
    (connected env locals pool poolSize serverUrl w).world :=
  ((httpTransactionCtor_emits env ..).trans (.one (by trivial) rfl)).trans
    (httpTransactionSendRequest_emits env _)

theorem downloadUpdate_disconnects (hroom : ¬ (pool = 0 ∨ poolSize = 0)) :
    ∃ r w₁, downloadUpdate env locals pool poolSize serverUrl w = some r ∧
      Emits IsRequest (context env locals pool poolSize w).world w₁ ∧
      Emits IsInstall
        (disconnect env (connected env locals pool poolSize serverUrl w).value w₁) r.world := by
  let c := connected env locals pool poolSize serverUrl w
  let header := fetched env locals pool poolSize serverUrl w
  have hc : Emits IsRequest (context env locals pool poolSize w).world c.world :=
    connected_emits ..
  have hheader := hc.trans (fetchHeader_emits env locals c.value.trans)
  by_cases hsent : c.value.trans.err < 0
  · exact ⟨_, c.world, (if_neg hroom).trans (if_pos hsent), hc, .one (by trivial) rfl⟩
  · by_cases hstatus : c.value.trans.statusCode = 200
    · obtain ⟨d, hd, -, htransfer⟩ :=
        httpDownloadFile_cases env c.value.trans downloadPath (some locals.hashBuf) header.world
      obtain ⟨r, hr, -, -⟩ := compareHash_spec env header.value.value
        (d.value.hashBuf.getD locals.hashBuf)
        (if c.value.trans.statusCode = 204 then 0 else header.value.err)
        (logHeader header.value.value d.world)
      have hcompare : Emits IsRequest d.world r.world :=
        Emits.trans (.one (by trivial) rfl) (compareHash_emits env _ _ hr)
      refine ⟨⟨r.value, disconnect env c.value r.world⟩, r.world, ?_,
        (hheader.trans (htransfer.mono fun _ he => .transfer he)).trans hcompare, .of_eq rfl⟩
      refine (if_neg hroom).trans ((if_neg hsent).trans ((if_pos hstatus).trans ?_))
      exact Option.bind_eq_some_iff.mpr ⟨d, hd, Option.bind_eq_some_iff.mpr ⟨r, hr, rfl⟩⟩
    · refine ⟨⟨if c.value.trans.statusCode = 204 then 0 else header.value.err,
        disconnect env c.value header.world⟩, header.world, ?_, hheader, .of_eq rfl⟩
      exact (if_neg hroom).trans ((if_neg hsent).trans (if_neg hstatus))

inductive Constructed (pool : ℕ) : List (Action Resource) → Prop
  | noHttp : Constructed pool [.use (.pool pool)]
  | noClient : Constructed pool [.use (.pool pool), .acquire .http, .use .http]
  | client (id : ℕ) :
      Constructed pool [.use (.pool pool), .acquire .http, .use .http, .acquire (.client id)]

theorem performs_silent {w₁ : World} (h : Emits IsInstall w w₁) : Performs env w [] w₁ := by
  have hnone : ∃ as, Performs env w as w₁ ∧ ∀ a ∈ as, False :=
    Performs.of_emits (fun e he n a ha => by simp [he.silent] at ha) h
  obtain ⟨as, has, hfalse⟩ := hnone
  cases as with
  | nil => exact has
  | cons a as => exact (hfalse a List.mem_cons_self).elim

theorem context_performs : ∃ as, Constructed pool as ∧
    Performs env w as (context env locals pool poolSize w).world := by
  let w₀ := logLn "\nstart download update\n" w
  let w₁ := (cellHttp env (.init pool poolSize) w₀).world
  have hlog : Performs env w [] w₀ := performs_silent env w (.one (by trivial) rfl)
  have hinit : Performs env w (.use (.pool pool) :: acquired (env.code w₀.now) .http) w₁ :=
    hlog.trans (.one (e := .http (.init pool poolSize) _) rfl)
  by_cases h : env.code w₀.now < 0
  · have hctx : (context env locals pool poolSize w).world = w₁ := congrArg Called.world (if_pos h)
    rw [acquired, if_pos h] at hinit
    exact ⟨_, .noHttp, hctx ▸ hinit⟩
  · have hctx : (context env locals pool poolSize w).world =
        (cellHttp env .createClient w₁).world :=
      congrArg Called.world (if_neg h)
    have hcreate : Performs env w₁
        (.use .http :: acquired (env.code w₁.now) (.client (env.handle w₁.now)))
        (cellHttp env .createClient w₁).world := .one (e := .http .createClient _) rfl
    rw [acquired, if_neg h] at hinit
    by_cases h' : env.code w₁.now < 0
    · rw [acquired, if_pos h'] at hcreate
      exact ⟨_, .noClient, hctx ▸ hinit.trans hcreate⟩
    · rw [acquired, if_neg h'] at hcreate
      exact ⟨_, .client _, hctx ▸ hinit.trans hcreate⟩

theorem disconnect_performs (c : Connection) : Performs env w
    [.release (.transaction c.trans.transId), .release .http, .release (.client c.ctx.client)]
    (disconnect env c w) := by
  have htrans : Performs env w [.release (.transaction c.trans.transId)]
      (httpTransactionDtor env c.trans w) :=
    .one (e := .http (.destroyTransaction c.trans.transId) _) rfl
  exact (htrans.trans (.one (e := .http .endHttp _) rfl)).trans
    (.one (e := .http (.destroyClient c.ctx.client) _) rfl)

theorem not_wellBracketed_disconnect {as bs cs : List (Action Resource)} {c : Connection}
    (hctor : Constructed pool as) (hwithin : ∀ a ∈ bs, a.Opens IsTransaction) :
    ¬ WellBracketed [.pool pool, .network] (as ++ bs ++
      [.release (.transaction c.trans.transId), .release .http,
        .release (.client c.ctx.client)] ++ cs) := by
  intro h
  have hopen : ∃ stack, WellBracketed stack (bs ++ ([.release (.transaction c.trans.transId),
      .release .http, .release (.client c.ctx.client)] ++ cs)) ∧
      (∀ id s, stack ≠ .transaction id :: s) ∧ ∀ id s, stack ≠ .http :: .client id :: s := by
    rw [List.append_assoc, List.append_assoc] at h
    cases hctor with
    | noHttp => exact ⟨[.pool pool, .network], h.2, by simp, by simp⟩
    | noClient => exact ⟨[.http, .pool pool, .network], h.2.2, by simp, by simp⟩
    | client id =>
      exact ⟨[.client id, .http, .pool pool, .network], h.2.2, by simp, by simp⟩
  obtain ⟨stack, hstack, htrans, hclient⟩ := hopen
  obtain ⟨rs, hrs, hclose⟩ := hstack.after hwithin
  have htop : ∃ s, rs ++ stack = .transaction c.trans.transId :: .http ::
      .client c.ctx.client :: s := by
    obtain ⟨s₁, h₁, hclose⟩ := wellBracketed_release.mp hclose
    obtain ⟨s₂, h₂, hclose⟩ := wellBracketed_release.mp hclose
    obtain ⟨s₃, h₃, -⟩ := wellBracketed_release.mp hclose
    exact ⟨s₃, by rw [h₁, h₂, h₃]⟩
  obtain ⟨s, htop⟩ := htop
  -- only transactions lie above what the constructor left open
  cases rs with
  | nil => exact htrans _ _ htop
  | cons r rs =>
    obtain ⟨-, htop⟩ := List.cons.inj htop
    cases rs with
    | nil => exact hclient _ _ htop
    | cons r' rs =>
      obtain ⟨rfl, -⟩ := List.cons.inj htop
      exact hrs .http (by simp)

theorem downloadUpdate_not_wellBracketed (hroom : ¬ (pool = 0 ∨ poolSize = 0)) :
    ∃ r as, downloadUpdate env locals pool poolSize serverUrl w = some r ∧
      Performs env w as r.world ∧ ∀ cs, ¬ WellBracketed [.pool pool, .network] (as ++ cs) := by
  obtain ⟨r, w₁, hr, hwithin, hsilent⟩ :=
    downloadUpdate_disconnects env locals pool poolSize serverUrl w hroom
  obtain ⟨as, hctor, has⟩ := context_performs env locals pool poolSize w
  obtain ⟨bs, hbs, hopens⟩ := Performs.of_emits (fun _ he => he.opens) hwithin
  have hclose := disconnect_performs env w₁ (connected env locals pool poolSize serverUrl w).value
  have hrest := performs_silent env _ hsilent
  refine ⟨r, _, hr, ((has.trans hbs).trans hclose).trans hrest, fun cs => ?_⟩
  rw [List.append_nil]
  exact not_wellBracketed_disconnect pool hctor hopens

end Disconnects

section Update
variable (locals : Locals) (url : ℕ) (w : World)

theorem tryUpdateAndInstall_silent {r : Called ℤ} (hnet : (network env w).value ≠ 0)
    (hr : downloadUpdate env locals (httpPool env w).value 65536 url (httpPool env w).world =
      some r) :
    ∃ r', tryUpdateAndInstall env locals url w = some r' ∧
      Emits IsInstall (released env (httpPool env w).value r) r'.world := by
  by_cases h1 : r.value = 1
  · obtain ⟨c, hc, hcase⟩ := copyFile_cases env (show downloadPath ≠ installPath by decide)
      (released env (httpPool env w).value r)
    refine ⟨⟨1, logLn "No patchwork update available" c.world⟩, ?_,
      .trans ?_ (.one (by trivial) rfl)⟩
    · refine (if_neg hnet).trans (Option.bind_eq_some_iff.mpr ⟨r, hr, (if_pos h1).trans ?_⟩)
      exact Option.bind_eq_some_iff.mpr ⟨c, hc, rfl⟩
    · cases hcase with
      | unopened no file emits => exact emits.mono fun _ he => .file he
      | failed opens source copied emits never => exact emits.mono fun _ he => .file he
      | finished opens source copied emits closes whole =>
        exact ((emits.mono fun _ he => .file he).emit (by trivial)).trans
          (closes.mono fun _ he => .file he)
  · by_cases h2 : r.value = 2
    · refine ⟨⟨2, errorDialog "Failed to update patchwork"
        (logLn "Update failed" (released env (httpPool env w).value r))⟩, ?_,
        .emit (.one (by trivial) rfl) (by trivial)⟩
      exact (if_neg hnet).trans (Option.bind_eq_some_iff.mpr
        ⟨r, hr, (if_neg h1).trans (if_pos h2)⟩)
    · refine ⟨⟨r.value, released env (httpPool env w).value r⟩, ?_, .of_eq rfl⟩
      exact (if_neg hnet).trans (Option.bind_eq_some_iff.mpr
        ⟨r, hr, (if_neg h1).trans (if_neg h2)⟩)

def IsUpdating : Event → Prop
  | .sys .initializeNetwork _ | .restart .. => False
  | _ => True

theorem IsRequest.isUpdating {e : Event} (h : IsRequest e) : IsUpdating e := by
  cases e <;> trivial

theorem IsInstall.isUpdating {e : Event} (h : IsInstall e) : IsUpdating e := by
  cases e <;> trivial

theorem downloadUpdate_emits (pool poolSize : ℕ) (w : World) :
    ∃ r, downloadUpdate env locals pool poolSize url w = some r ∧
      Emits IsUpdating w r.world := by
  by_cases hroom : pool = 0 ∨ poolSize = 0
  · exact ⟨_, if_pos hroom, .emit (.one (by trivial) rfl) (by trivial)⟩
  · obtain ⟨r, w₁, hr, hwithin, hend⟩ :=
      downloadUpdate_disconnects env locals pool poolSize url w hroom
    have hctor : Emits IsUpdating w (context env locals pool poolSize w).world := by
      unfold context httpContextCtor
      dsimp only
      split
      · exact .emit (.one (by trivial) rfl) (by trivial)
      · exact .emit (.emit (.one (by trivial) rfl) (by trivial)) (by trivial)
    have hdisconnect (c : Connection) : Emits IsUpdating w₁ (disconnect env c w₁) :=
      .emit (.emit (.one (by trivial) rfl) (by trivial)) (by trivial)
    exact ⟨r, hr, ((hctor.trans (hwithin.mono fun _ he => he.isUpdating)).trans
      (hdisconnect _)).trans (hend.mono fun _ he => he.isUpdating)⟩

theorem tryUpdateAndInstall_emits : ∃ r, tryUpdateAndInstall env locals url w = some r ∧
    Emits IsUpdating (network env w).world r.world := by
  by_cases hnet : (network env w).value = 0
  · exact ⟨_, if_pos hnet, .of_eq rfl⟩
  · obtain ⟨r, hr, hdownload⟩ :=
      downloadUpdate_emits env locals url (httpPool env w).value 65536 (httpPool env w).world
    obtain ⟨r', hr', hend⟩ := tryUpdateAndInstall_silent env locals url w hnet hr
    have hpool : Emits IsUpdating (network env w).world (httpPool env w).world :=
      .one (by trivial) rfl
    have hreleased : Emits IsUpdating r.world (released env (httpPool env w).value r) :=
      .emit (.emit (.one (by trivial) rfl) (by trivial)) (by trivial)
    exact ⟨r', hr', ((hpool.trans hdownload).trans hreleased).trans
      (hend.mono fun _ he => he.isUpdating)⟩

theorem managed_iff {as : List (Action Resource)} {w w' : World} (hp : Performs env w as w')
    (ha : Attempts w w') : Managed env w w' ↔ WellBracketed [] as ∧ 0 ≤ env.code w.now := by
  constructor
  · intro h
    obtain ⟨bs, hbs, hwell⟩ := h.bracketed
    exact ⟨hbs.unique hp ▸ hwell, h.attempted.mp ha⟩
  · exact fun h => ⟨⟨as, hp, h.1⟩, iff_of_true ha h.2⟩

theorem httpPool_performs : Performs env w (acquired (env.code w.now) .network ++
    acquired (env.code (w.now + 1)) (.pool (env.handle (w.now + 1)))) (httpPool env w).world := by
  have hnow : (network env w).world.now = w.now + 1 := World.emit_now ..
  have hnet : Performs env w (acquired (env.code w.now) .network) (network env w).world :=
    .one (e := .sys .initializeNetwork _) rfl
  have hpool : Performs env (network env w).world
      (acquired (env.code (w.now + 1)) (.pool (env.handle (w.now + 1))))
      (httpPool env w).world := by
    rw [← hnow]
    exact .one (e := .sys (.allocateMemory 65536) _) rfl
  exact hnet.trans hpool

theorem httpPool_value : (httpPool env w).value =
    if env.code (w.now + 1) < 0 then 0 else env.handle (w.now + 1) := by
  have hnow : (network env w).world.now = w.now + 1 := World.emit_now ..
  rw [← hnow]
  rfl

theorem released_performs (pool : ℕ) (r : Called ℤ) :
    Performs env r.world [.release (.pool pool), .release .network] (released env pool r) := by
  have hdone : Performs env r.world [] (r.world.emit (.downloaded r.value)) :=
    .one (e := .downloaded r.value) rfl
  exact hdone.trans ((Performs.one (e := .sys (.freeMemory pool) _) rfl).trans
    (.one (e := .sys .finalizeNetwork _) rfl))

theorem tryUpdateAndInstall_performs {r : Called ℤ} {as : List (Action Resource)}
    (hnet : env.code w.now ≠ 0)
    (hr : downloadUpdate env locals (httpPool env w).value 65536 url (httpPool env w).world =
      some r) (has : Performs env (httpPool env w).world as r.world) :
    ∃ r', tryUpdateAndInstall env locals url w = some r' ∧ Attempts w r'.world ∧
      Performs env w (acquired (env.code w.now) .network ++
        acquired (env.code (w.now + 1)) (.pool (env.handle (w.now + 1))) ++ as ++
        [.release (.pool (httpPool env w).value), .release .network]) r'.world := by
  obtain ⟨r', hr', hsilent⟩ := tryUpdateAndInstall_silent env locals url w hnet hr
  have hbefore := (httpPool_performs env w).trans has
  refine ⟨r', hr', ?_, ?_⟩
  · obtain ⟨es, hes, -⟩ := hbefore
    obtain ⟨es', hes', -⟩ := hsilent
    have hsys : Emits Event.IsRoutine (r.world.emit (.downloaded r.value))
        (released env (httpPool env w).value r) := ((Quiet.sys env _).trans (.sys env _)).emits
    obtain ⟨mid, hmid, -⟩ := hsys
    refine ⟨es ++ [.downloaded r.value] ++ mid ++ es', r.value, ?_, by simp⟩
    rw [hes', hmid, World.emit_trace, hes]
    simp
  · have hafter := (released_performs env (httpPool env w).value r).trans
      (performs_silent env _ hsilent)
    simpa using hbefore.trans hafter

theorem not_managed_network (h0 : env.code w.now = 0) :
    ¬ Managed env w (network env w).world := by
  intro h
  have hp : Performs env w (acquired (env.code w.now) .network) (network env w).world :=
    .one (e := .sys .initializeNetwork _) rfl
  obtain ⟨as, has, hwell⟩ := h.bracketed
  rw [has.unique hp, h0] at hwell
  simp [acquired] at hwell

/-- An update manages its resources only if the network and the pool are there and the pool's
address is null, which makes `DownloadUpdate` refuse before it makes any HTTP call. -/
theorem tryUpdateAndInstall_managed_iff : ∃ r, tryUpdateAndInstall env locals url w = some r ∧
    (Managed env w r.world ↔
      0 < env.code w.now ∧ 0 ≤ env.code (w.now + 1) ∧ env.handle (w.now + 1) = 0) := by
  by_cases hnet : env.code w.now = 0
  · exact ⟨_, if_pos hnet, iff_of_false (not_managed_network env w hnet) (by omega)⟩
  · by_cases hpool : (httpPool env w).value = 0
    · have hrefused : Performs env (httpPool env w).world [] (logLn "ERROR: invalid pool size"
          (logLn "\nstart download update\n" (httpPool env w).world)) :=
        performs_silent env _ (.emit (.one (by trivial) rfl) (by trivial))
      obtain ⟨r, hr, hattempts, hp⟩ := tryUpdateAndInstall_performs env locals url w hnet
        (r := ⟨2, _⟩) (if_pos (.inl hpool)) hrefused
      refine ⟨r, hr, ?_⟩
      rw [managed_iff env hp hattempts, hpool]
      rw [httpPool_value] at hpool
      unfold acquired
      split_ifs at hpool ⊢ <;> simp <;> omega
    · obtain ⟨r₀, as, hr₀, has, hnot⟩ := downloadUpdate_not_wellBracketed env locals
        (httpPool env w).value 65536 url (httpPool env w).world (by simpa using hpool)
      obtain ⟨r, hr, hattempts, hp⟩ :=
        tryUpdateAndInstall_performs env locals url w hnet hr₀ has
      refine ⟨r, hr, ?_⟩
      rw [managed_iff env hp hattempts]
      rw [httpPool_value] at hpool hnot ⊢
      split_ifs at hpool hnot ⊢ with ha
      · exact absurd rfl hpool
      · refine iff_of_false (fun h => ?_) fun h => hpool h.2.2
        obtain ⟨hwell, hup⟩ := h
        rw [acquired, acquired, if_neg (by omega), if_neg ha] at hwell
        exact hnot _ (by simpa using hwell)

end Update

theorem tryUpdateAndInstall_unmanaged : ¬ ∀ (env : Env) (locals : Locals) (url : ℕ)
    (w : World) (r : Called ℤ), tryUpdateAndInstall env locals url w = some r →
    Managed env w r.world := by
  intro h
  exact not_managed_network unopenedEnv freshWorld rfl
    (h unopenedEnv staleLocals 1 freshWorld ⟨2, _⟩ (if_pos rfl))

end Patchwork.Resources
