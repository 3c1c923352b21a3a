import Patchwork.Prx

/-!
# Lobby keys

Two consoles play together when their network keys agree. A password is hashed
as `TrimEnd` leaves it; without one, the eight bytes of the sum of the start
time's two fields are hashed instead, with nothing to tell the two inputs apart.
-/

namespace Patchwork.JoinKey
open ByteMemory Console Util Prx

structure Player where
  password : Option (List UInt8)
  sec : BitVec 64
  nsec : BitVec 64

def Player.At (c : Player) (m : Mem) (a : ℕ) : Prop :=
  match c.password with
  | none => a = 0
  | some s => a ≠ 0 ∧ IsCString m a s ∧ a + s.length < 2 ^ 32

def Player.hashed (c : Player) : List UInt8 :=
  match c.password with
  | none => be64 (c.nsec + c.sec)
  | some s => trimmed s

/-- The 16 bytes that the game's table copies to the network key. -/
def networkKey (hashBuf : ℕ) (r : ℤ × Mem) : List UInt8 := load r.2 hashBuf 16

def NoCollision (sha256 : List UInt8 → Digest) (x y : List UInt8) : Prop :=
  (sha256 x).toList.take 16 = (sha256 y).toList.take 16 → x = y

variable {sha256 : List UInt8 → Digest}

theorem networkKey_store (d : Digest) (v : ℤ) (hashBuf : ℕ) (m : Mem) :
    networkKey hashBuf (v, store m hashBuf d.toList) = d.toList.take 16 := by
  have h := load_store_same m (a := hashBuf) d.toList
  have hlen : 16 ≤ d.toList.length := by simp
  rw [networkKey, ← load_take _ hlen, h]

theorem copyHashedJoinKey_key {c : Player} {m : Mem} {a : ℕ} (hashBuf : ℕ) (h : c.At m a) :
    ∃ r, copyHashedJoinKey sha256 c.sec c.nsec hashBuf a m = some r ∧
      networkKey hashBuf r = (sha256 c.hashed).toList.take 16 := by
  obtain ⟨password, sec, nsec⟩ := c
  cases password with
  | none =>
    obtain rfl : a = 0 := h
    exact ⟨_, if_neg (by decide), networkKey_store ..⟩
  | some s =>
    obtain ⟨ha, hs, hroom⟩ := h
    have htrimmed := isCString_trimmed hs
    have hlen := trimmed_length_le s
    refine ⟨_, (if_pos ha).trans (Option.bind_eq_some_iff.mpr ⟨_, trimEnd_eq ha hs (by omega),
      Option.bind_eq_some_iff.mpr ⟨_, strlen_eq htrimmed (by omega), rfl⟩⟩), ?_⟩
    rw [htrimmed.chars]
    exact networkKey_store ..

theorem be64_injective {v v' : BitVec 64} (h : be64 v = be64 v') : v = v' := by
  obtain ⟨hhigh, hlow⟩ := List.append_inj h rfl
  have hv := v.isLt
  have hv' := v'.isLt
  have hh := congrArg ofBe32 hhigh
  have hl := congrArg ofBe32 hlow
  rw [ofBe32_be32 (by omega), ofBe32_be32 (by omega)] at hh hl
  apply BitVec.eq_of_toNat_eq
  omega

def Player.Unblank (c : Player) : Prop := ∀ s, c.password = some s → ¬ Blank s

def Player.Agrees (c c' : Player) : Prop :=
  match c.password, c'.password with
  | some s, some t => stripped s = stripped t
  | none, none => c.nsec + c.sec = c'.nsec + c'.sec
  | some s, none => stripped s = be64 (c'.nsec + c'.sec)
  | none, some t => be64 (c.nsec + c.sec) = stripped t

theorem hashed_eq_iff {c c' : Player} (hc : c.Unblank) (hc' : c'.Unblank) :
    c.hashed = c'.hashed ↔ c.Agrees c' := by
  obtain ⟨p, sec, nsec⟩ := c
  obtain ⟨p', sec', nsec'⟩ := c'
  cases p with
  | none =>
    cases p' with
    | none => exact ⟨be64_injective, congrArg be64⟩
    | some t =>
      simp only [Player.hashed, Player.Agrees]
      rw [trimmed_eq_stripped (hc' t rfl)]
  | some s =>
    cases p' with
    | none =>
      simp only [Player.hashed, Player.Agrees]
      rw [trimmed_eq_stripped (hc s rfl)]
    | some t =>
      simp only [Player.hashed, Player.Agrees]
      rw [trimmed_eq_stripped (hc s rfl), trimmed_eq_stripped (hc' t rfl)]

/-- Without blank passwords and collisions, the keys agree exactly when the players do. -/
theorem networkKey_eq_iff {c c' : Player} {m m' : Mem} {a a' : ℕ} (hashBuf hashBuf' : ℕ)
    (h : c.At m a) (h' : c'.At m' a') (hc : c.Unblank) (hc' : c'.Unblank)
    (distinct : NoCollision sha256 c.hashed c'.hashed) :
    ∃ r r', copyHashedJoinKey sha256 c.sec c.nsec hashBuf a m = some r ∧
      copyHashedJoinKey sha256 c'.sec c'.nsec hashBuf' a' m' = some r' ∧
      (networkKey hashBuf r = networkKey hashBuf' r' ↔ c.Agrees c') := by
  obtain ⟨r, hr, hk⟩ := copyHashedJoinKey_key hashBuf h
  obtain ⟨r', hr', hk'⟩ := copyHashedJoinKey_key hashBuf' h'
  refine ⟨r, r', hr, hr', ?_⟩
  rw [hk, hk', ← hashed_eq_iff hc hc']
  exact ⟨distinct, fun he => by rw [he]⟩

def aloneMem : Mem := store (fun _ => 0) 16 [97]
def blankMem : Mem := store (fun _ => 0) 16 [97, 32]

def hashOfA : Digest := #v[
  0xca, 0x97, 0x81, 0x12, 0xca, 0x1b, 0xbd, 0xca, 0xfa, 0xc2, 0x31, 0xb3, 0x9a, 0x23, 0xdc, 0x4d,
  0xa7, 0x86, 0xef, 0xf8, 0x14, 0x7c, 0x4e, 0x72, 0xb9, 0x80, 0x77, 0x85, 0xaf, 0xee, 0x48, 0xbb]

theorem networkKey_eq_iff_blank_behind :
    ∃ r r', copyHashedJoinKey (fun _ => hashOfA) 1 2 64 16 aloneMem = some r ∧
      copyHashedJoinKey (fun _ => hashOfA) 3 4 64 16 blankMem = some r' ∧
      (networkKey 64 r = networkKey 64 r' ↔
        Player.Agrees ⟨some [97], 1, 2⟩ ⟨some [97, 32], 3, 4⟩) :=
  @networkKey_eq_iff _ ⟨some [97], 1, 2⟩ ⟨some [97, 32], 3, 4⟩ _ _ _ _ 64 64
    ⟨by decide, ⟨by decide, by decide, by decide⟩, by decide⟩
    ⟨by decide, ⟨by decide, by decide, by decide⟩, by decide⟩
    (fun s hs => by cases hs; exact fun hb => by simpa [isSpace] using hb.2 97 (by simp))
    (fun s hs => by cases hs; exact fun hb => by simpa [isSpace] using hb.2 97 (by simp))
    (fun _ => by decide)

/-- Agreement as it would be if the start time's fields were told apart and randomized keys
never met passwords. -/
def Player.AgreesExactly (c c' : Player) : Prop :=
  match c.password, c'.password with
  | some s, some t => stripped s = stripped t
  | none, none => c.sec = c'.sec ∧ c.nsec = c'.nsec
  | _, _ => False

def hashOfOne : Digest := #v[
  0xcd, 0x26, 0x62, 0x15, 0x4e, 0x6d, 0x76, 0xb2, 0xb2, 0xb9, 0x2e, 0x70, 0xc0, 0xca, 0xc3, 0xcc,
  0xf5, 0x34, 0xf9, 0xb7, 0x4e, 0xb5, 0xb8, 0x98, 0x19, 0xec, 0x50, 0x90, 0x83, 0xd0, 0x0a, 0x50]

theorem networkKey_shared : ¬ ∀ (sha256 : List UInt8 → Digest) (c c' : Player) (m m' : Mem)
    (a a' hashBuf hashBuf' : ℕ) (r r' : ℤ × Mem),
    c.nsec.toNat < 10 ^ 9 → c'.nsec.toNat < 10 ^ 9 → c.At m a → c'.At m' a' →
    NoCollision sha256 c.hashed c'.hashed →
    copyHashedJoinKey sha256 c.sec c.nsec hashBuf a m = some r →
    copyHashedJoinKey sha256 c'.sec c'.nsec hashBuf' a' m' = some r' →
    (networkKey hashBuf r = networkKey hashBuf' r' ↔ c.AgreesExactly c') := by
  intro h
  have hiff := h (fun _ => hashOfOne) ⟨none, 1, 0⟩ ⟨none, 0, 1⟩ aloneMem aloneMem 0 0 64 64 _ _
    (by decide) (by decide) rfl rfl (fun _ => by decide) rfl rfl
  exact absurd (hiff.mp rfl).1 (by decide)

end Patchwork.JoinKey
