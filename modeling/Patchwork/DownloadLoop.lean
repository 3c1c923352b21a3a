import Patchwork.Update

/-!
# The download's two loops

Every chunk is received into one buffer, hashed, and written from there in as many
pieces as the file system makes of it. What a download that succeeds has stored is
what it has hashed, and no write asks for bytes behind the chunk.
-/

namespace Patchwork.DownloadLoop
open BoundedLoop Console Fs Http

section Requests
variable (env : Env) (strict : Bool) (fd : ℕ) (bytes : List UInt8)

def requests (offset : ℕ) (w : World) : List (ℕ × ℕ) :=
  if offset < bytes.length then
    let r := cellFsWrite env fd (bytes.drop offset) w
    (offset, bytes.length - offset) ::
      if (strict ∧ r.value.ok = false) ∨ r.value.count = 0 then []
      else requests (offset + r.value.count) r.world
  else []
termination_by bytes.length - offset
decreasing_by
  rename_i hlt hgo
  have hcount : r.value.count ≠ 0 := fun h0 => hgo (.inr h0)
  change bytes.length - (offset + r.value.count) < bytes.length - offset
  omega

def Answers (request : ℕ × ℕ) (e : Event) : Prop :=
  ∃ ok count, e = .written fd ok count ∧ count ≤ request.2

theorem requests_answered (offset : ℕ) (w : World) : ∃ es,
    (writeAll env strict fd bytes offset w).world.trace = w.trace ++ es ∧
      List.Forall₂ (Answers fd) (requests env strict fd bytes offset w) es := by
  have hone (offset : ℕ) (w : World) : ∃ e,
      (cellFsWrite env fd (bytes.drop offset) w).world.trace = w.trace ++ [e] ∧
        Answers fd (offset, bytes.length - offset) e := by
    have hle : (cellFsWrite env fd (bytes.drop offset) w).value.count ≤
        (bytes.drop offset).length := cellFsWrite_count_le env
    rw [List.length_drop] at hle
    unfold cellFsWrite at hle ⊢
    split at hle
    · exact ⟨_, rfl, _, _, rfl, hle⟩
    · exact ⟨_, rfl, _, _, rfl, hle⟩
  induction offset, w using writeAll.induct env strict fd bytes with
  | case1 offset w hlt r hstop =>
    obtain ⟨e, he, hanswers⟩ := hone offset w
    rw [writeAll_stop hlt hstop, requests, if_pos hlt]
    dsimp only
    rw [if_pos hstop]
    exact ⟨[e], he, .cons hanswers .nil⟩
  | case2 offset w hlt r hgo ih =>
    obtain ⟨e, he, hanswers⟩ := hone offset w
    obtain ⟨es, hes, hrest⟩ := ih
    rw [writeAll_go hlt hgo, requests, if_pos hlt]
    dsimp only
    rw [if_neg hgo]
    refine ⟨e :: es, ?_, .cons hanswers hrest⟩
    rw [hes, he, List.append_assoc]
    rfl
  | case3 offset w hge =>
    rw [writeAll_end hge, requests, if_neg hge]
    exact ⟨[], by simp, .nil⟩

theorem requests_inside (offset : ℕ) (w : World) :
    ∀ p ∈ requests env strict fd bytes offset w, p.1 + p.2 = bytes.length := by
  induction offset, w using writeAll.induct env strict fd bytes with
  | case1 offset w hlt r hstop =>
    rw [requests, if_pos hlt]
    dsimp only
    rw [if_pos hstop]
    simp
    omega
  | case2 offset w hlt r hgo ih =>
    rw [requests, if_pos hlt]
    dsimp only
    rw [if_neg hgo]
    exact List.forall_mem_cons.mpr ⟨by dsimp only; omega, ih⟩
  | case3 offset w hge =>
    rw [requests, if_neg hge]
    simp

end Requests

/-- What the inner loop asks for when `bytes` have been received into the buffer of 256. -/
structure AsksInside (env : Env) (fd : ℕ) (bytes : List UInt8) (w : World) : Prop where
  buffer : bytes.length ≤ 256
  inside : ∀ p ∈ requests env false fd bytes 0 w, p.1 + p.2 ≤ bytes.length
  answered : ∃ es, (writeAll env false fd bytes 0 w).world.trace = w.trace ++ es ∧
    List.Forall₂ (Answers fd) (requests env false fd bytes 0 w) es

theorem received_length {trans : ℕ} {w w' : World} {bytes : List UInt8}
    (h : cellHttpRecvResponse trans w = ⟨some bytes, w'⟩) : bytes.length ≤ 256 := by
  unfold cellHttpRecvResponse at h
  dsimp only at h
  split at h
  · cases h
    exact Nat.zero_le _
  · next c rest _ =>
    cases h
    exact c.fits
  · cases h

/-- `HttpDownloadFile` returns; where it answers 1 the file holds what was received and the hash
is of that; and in each round the writes ask for parts of the chunk. -/
theorem httpDownloadFile_stores (env : Env) (trans : HttpTransaction) (path : String)
    (hashBuf : Option Digest) (w : World) :
    ∃ r, httpDownloadFile env trans path hashBuf w = some r ∧
      (r.value.result = 1 → ∃ body, responseBody w.incoming = some body ∧
        r.world.file path = some body ∧
        r.value.hashBuf = hashBuf.map fun _ => env.sha256 body) ∧
      ∀ s bytes w', Rounds (receiveRound env (w.now + 1) trans.transId)
          ⟨[], afterOpen path .wronlyCreatTrunc w⟩ s →
        cellHttpRecvResponse trans.transId s.world = ⟨some bytes, w'⟩ →
          AsksInside env (w.now + 1) bytes w' := by
  obtain ⟨r, hr, hcase, -⟩ := httpDownloadFile_cases env trans path hashBuf w
  refine ⟨r, hr, fun hone => ?_, fun s bytes w' _ hrecv => ⟨received_length hrecv, ?_, ?_⟩⟩
  · cases hcase with
    | unopened => cases hone
    | broken => cases hone
    | complete completes response file => exact ⟨_, response, file, rfl⟩
  · exact fun p hp => Nat.le_of_eq (requests_inside env false (w.now + 1) bytes 0 w' p hp)
  · exact requests_answered env false (w.now + 1) bytes 0 w'

end Patchwork.DownloadLoop
