import VerifiedDice.World

/-!
# Key files

`load_file` and `crypto_load_priv_key` of the tools on the host, over the files of the C
library. The length of the buffer is known to the caller, that of the file to the loader.
-/
namespace VerifiedDice.CryptoFiles

open ByteMemory

abbrev HostAddr := BitVec 64
abbrev HostMemory := Mem 64

/-! ## The C library -/

/-- A file that has been opened. -/
structure File where
  content : List Byte
  /-- The bytes that are transferred before a read fails, if one does. -/
  readError : Option Nat

/-- Memory, the addresses written to, and what was printed. -/
structure HostState where
  mem : HostMemory
  written : HostAddr → Bool
  out : List Text

def HostState.start (m : HostMemory) : HostState where
  mem := m
  written := fun _ => false
  out := []

def HostState.printf (s : HostState) (t : Text) : HostState := { s with out := s.out ++ [t] }

/-- `ftell` at the end of the file; its result is a `long`. -/
def File.ftell (f : File) : BitVec 64 :=
  if f.content.length < 2 ^ 63 then BitVec.ofNat 64 f.content.length else -1

/-- The bytes that a read of `size` bytes gets. -/
def File.transferred (f : File) (size : BitVec 64) : Nat :=
  match f.readError with
  | none => min size.toNat f.content.length
  | some k => min k (min size.toNat f.content.length)

/-- `fread(buffer, size, 1, f)` from the start of the file. -/
def fread (buffer : HostAddr) (size : BitVec 64) (f : File) (s : HostState) : Nat × HostState :=
  let n := f.transferred size
  (if n = size.toNat then 1 else 0, { s with
    mem := write s.mem buffer (f.content.take n)
    written := fun x => s.written x || decide (Within buffer n x) })

/-! ## crypto_files.cpp -/

def fwEd25519PrivateKeyLen : Nat := 32

/-- `file` is what `fopen` returns for the path. -/
def loadFile (path : Text) (file : Option File) (buffer : HostAddr) (s : HostState) :
    Int × HostState :=
  match file with
  | none => (-1, s.printf (text "Couldn't open " ++ path ++ text "\n"))
  | some f =>
    let size := f.ftell
    if size = 0 then (-1, s.printf (text "File is empty: " ++ path ++ text "\n"))
    else
      let (items, s) := fread buffer size f s
      if items ≠ 1 then (-1, s.printf (text "Couldn't read " ++ path ++ text "\n"))
      else (0, s)

def cryptoLoadPrivKey (path : Text) (file : Option File) (privKey : HostAddr) (s : HostState) :
    Int × HostState :=
  loadFile path file privKey s

/-! ## One file -/

section File

variable {f : File} {buffer : HostAddr}

theorem ftell_toNat : f.ftell.toNat =
    if f.content.length < 2 ^ 63 then f.content.length else 2 ^ 64 - 1 := by
  unfold File.ftell
  split
  · rename_i h
    rw [BitVec.toNat_ofNat, Nat.mod_eq_of_lt (by omega)]
  · rfl

theorem ftell_eq_zero_iff : f.ftell = 0 ↔ f.content.length = 0 := by
  have htell := ftell_toNat (f := f)
  constructor
  · intro h
    rw [h] at htell
    have hzero : (0 : BitVec 64).toNat = 0 := rfl
    split at htell
    · omega
    · omega
  · intro h
    apply BitVec.eq_of_toNat_eq
    rw [htell, h]
    rfl

theorem transferred_le (size : BitVec 64) :
    f.transferred size ≤ min size.toNat f.content.length := by
  unfold File.transferred
  cases f.readError with
  | none => exact Nat.le_refl _
  | some k => exact Nat.min_le_right _ _

theorem length_take_transferred (size : BitVec 64) :
    (f.content.take (f.transferred size)).length = f.transferred size := by
  have hle := transferred_le (f := f) size
  rw [List.length_take]
  omega

theorem loadFile_none (buffer : HostAddr) (path : Text) (s : HostState) :
    (loadFile path none buffer s).1 = -1 ∧ (loadFile path none buffer s).2.mem = s.mem ∧
      (loadFile path none buffer s).2.written = s.written := ⟨rfl, rfl, rfl⟩

theorem loadFile_empty (buffer : HostAddr) (path : Text) (s : HostState)
    (h : f.content.length = 0) :
    (loadFile path (some f) buffer s).1 = -1 ∧
      (loadFile path (some f) buffer s).2.mem = s.mem ∧
      (loadFile path (some f) buffer s).2.written = s.written := by
  have hsize : f.ftell = 0 := ftell_eq_zero_iff.mpr h
  unfold loadFile
  simp only [if_pos hsize]
  exact ⟨trivial, rfl, rfl⟩

/-- The bytes that are read go to the buffer; the result tells whether they are all. -/
theorem loadFile_read (buffer : HostAddr) (path : Text) (s : HostState) (h : f.content.length ≠ 0) :
    ((loadFile path (some f) buffer s).1 = 0 ↔ f.transferred f.ftell = f.ftell.toNat) ∧
      (loadFile path (some f) buffer s).2.mem =
        write s.mem buffer (f.content.take (f.transferred f.ftell)) ∧
      ∀ x, (loadFile path (some f) buffer s).2.written x =
        (s.written x || decide (Within buffer (f.transferred f.ftell) x)) := by
  have hsize : ¬ f.ftell = 0 := fun he => h (ftell_eq_zero_iff.mp he)
  unfold loadFile fread
  simp only [if_neg hsize]
  by_cases hwhole : f.transferred f.ftell = f.ftell.toNat
  · simp [hwhole]
  · simp [hwhole, HostState.printf]

end File

/-! ## Loading a key -/

/-- Only the key is written, it holds the whole file after a success, and a file of another length
is an error that leaves it as it was. -/
structure LoadsExactly (file : Option File) (m : HostMemory) (privKey : HostAddr) (ret : Int)
    (s : HostState) : Prop where
  inside : ∀ x, ¬ Within privKey fwEd25519PrivateKeyLen x → s.written x = false ∧ s.mem x = m x
  success : ret = 0 → ∃ f, file = some f ∧ f.content.length = fwEd25519PrivateKeyLen ∧
    bytesAt s.mem privKey fwEd25519PrivateKeyLen = f.content
  other : ∀ f, file = some f → f.content.length ≠ fwEd25519PrivateKeyLen →
    ret ≠ 0 ∧ bytesAt s.mem privKey fwEd25519PrivateKeyLen =
      bytesAt m privKey fwEd25519PrivateKeyLen

section Key

variable {f : File} {file : Option File} {m : HostMemory} {privKey : HostAddr} {ret : Int}
  {s : HostState} {path : Text}

theorem fwEd25519PrivateKeyLen_eq : fwEd25519PrivateKeyLen = 32 := rfl

/-- A failure that writes nothing. -/
theorem loadsExactly_of_unchanged (hret : ret = -1) (hmem : s.mem = m)
    (hwritten : s.written = fun _ => false) : LoadsExactly file m privKey ret s := by
  refine ⟨?_, ?_, ?_⟩
  · intro x _
    rw [hwritten, hmem]
    exact ⟨rfl, rfl⟩
  · intro hzero
    rw [hret] at hzero
    cases hzero
  · intro g _ _
    rw [hret, hmem]
    exact ⟨by decide, rfl⟩

/-- A file that is as long as a key is loaded exactly, also when a read fails. -/
theorem loadsExactly_of_length (hlen : f.content.length = fwEd25519PrivateKeyLen) :
    LoadsExactly (some f) m privKey (cryptoLoadPrivKey path (some f) privKey (.start m)).1
      (cryptoLoadPrivKey path (some f) privKey (.start m)).2 := by
  have hkey := fwEd25519PrivateKeyLen_eq
  have htell := ftell_toNat (f := f)
  rw [if_pos (by omega)] at htell
  have hle := transferred_le (f := f) f.ftell
  have htake := length_take_transferred (f := f) f.ftell
  obtain ⟨hret, hmem, hwritten⟩ :=
    loadFile_read (f := f) privKey path (.start m) (by omega)
  unfold cryptoLoadPrivKey
  refine ⟨?_, ?_, ?_⟩
  · intro x hx
    have hout : ¬ Within privKey (f.transferred f.ftell) x :=
      fun hin => hx (Nat.lt_of_lt_of_le hin (by omega))
    rw [hmem, hwritten, write_outside (by rw [htake]; exact hout), decide_eq_false hout]
    exact ⟨rfl, rfl⟩
  · intro hzero
    have hwhole := hret.mp hzero
    refine ⟨f, rfl, hlen, ?_⟩
    have hself := bytesAt_write_self m privKey f.content (by omega)
    rw [hlen] at hself
    rw [hmem, hwhole, htell, List.take_length]
    exact hself
  · intro g hg hother
    cases hg
    exact absurd hlen hother

/-- Any other file: it is loaded exactly only if reading it fails at once, or at bytes that
the key already has. -/
theorem loadsExactly_other_iff (hzero : f.content.length ≠ 0)
    (hlen : f.content.length ≠ fwEd25519PrivateKeyLen) :
    LoadsExactly (some f) m privKey (cryptoLoadPrivKey path (some f) privKey (.start m)).1
      (cryptoLoadPrivKey path (some f) privKey (.start m)).2 ↔
    f.transferred f.ftell ≠ f.ftell.toNat ∧ f.transferred f.ftell ≤ fwEd25519PrivateKeyLen ∧
      f.content.take (f.transferred f.ftell) = bytesAt m privKey (f.transferred f.ftell) := by
  have hkey := fwEd25519PrivateKeyLen_eq
  have hle := transferred_le (f := f) f.ftell
  have hlt := f.ftell.isLt
  have htake := length_take_transferred (f := f) f.ftell
  obtain ⟨hret, hmem, hwritten⟩ :=
    loadFile_read (f := f) privKey path (.start m) hzero
  unfold cryptoLoadPrivKey
  constructor
  · intro h
    obtain ⟨herror, hkept⟩ := h.other f rfl hlen
    have hshort : f.transferred f.ftell ≤ fwEd25519PrivateKeyLen := by
      by_contra hlong
      have hout : ¬ Within privKey fwEd25519PrivateKeyLen (at_ privKey fwEd25519PrivateKeyLen) := by
        rw [within_at _ (by decide)]
        exact Nat.lt_irrefl _
      have hin : Within privKey (f.transferred f.ftell) (at_ privKey fwEd25519PrivateKeyLen) := by
        rw [within_at _ (by decide)]
        omega
      have hrecord := (h.inside _ hout).1
      rw [hwritten] at hrecord
      simp [hin] at hrecord
    refine ⟨fun hwhole => herror (hret.mpr hwhole), hshort, ?_⟩
    have hself := bytesAt_write_self m privKey (f.content.take (f.transferred f.ftell))
      (by rw [htake]; omega)
    rw [htake] at hself
    have hbytes := congrArg (List.take (f.transferred f.ftell)) hkept
    rw [hmem, take_bytesAt _ _ hshort, take_bytesAt _ _ hshort] at hbytes
    exact hself.symm.trans hbytes
  · rintro ⟨hpart, hshort, hsame⟩
    have hnot : (loadFile path (some f) privKey (.start m)).1 ≠ 0 := fun he => hpart (hret.mp he)
    have hmem' : (loadFile path (some f) privKey (.start m)).2.mem = m := by
      rw [hmem, hsame]
      exact write_bytesAt m privKey _
    refine ⟨?_, fun he => absurd he hnot, ?_⟩
    · intro x hx
      have hout : ¬ Within privKey (f.transferred f.ftell) x :=
        fun hin => hx (Nat.lt_of_lt_of_le hin hshort)
      rw [hmem', hwritten, decide_eq_false hout]
      exact ⟨rfl, rfl⟩
    · intro g _ _
      rw [hmem']
      exact ⟨hnot, rfl⟩

/-- Which reads end early within the key. -/
theorem transferred_short_iff (n : Nat) :
    (f.transferred f.ftell = n ∧ n ≠ f.ftell.toNat ∧ n ≤ fwEd25519PrivateKeyLen) ↔
      f.readError = some n ∧ n ≤ fwEd25519PrivateKeyLen ∧ n < f.content.length := by
  have hkey := fwEd25519PrivateKeyLen_eq
  have htell := ftell_toNat (f := f)
  unfold File.transferred
  cases f.readError with
  | none =>
    simp only [reduceCtorEq, false_and, iff_false]
    split at htell <;> omega
  | some k =>
    simp only [Option.some.injEq]
    split at htell <;> omega

end Key

/-- A private key is loaded exactly if the file cannot be opened, is empty or is as long as the key;
any other file only if reading it fails within the first bytes, at ones the key already has. -/
theorem cryptoLoadPrivKey_exact_iff (path : Text) (file : Option File) (privKey : HostAddr)
    (m : HostMemory) :
    LoadsExactly file m privKey (cryptoLoadPrivKey path file privKey (.start m)).1
      (cryptoLoadPrivKey path file privKey (.start m)).2 ↔
    ∀ f, file = some f → f.content.length = 0 ∨ f.content.length = fwEd25519PrivateKeyLen ∨
      ∃ k, f.readError = some k ∧ k ≤ fwEd25519PrivateKeyLen ∧ k < f.content.length ∧
        f.content.take k = bytesAt m privKey k := by
  cases file with
  | none =>
    obtain ⟨hret, hmem, hwritten⟩ := loadFile_none privKey path (.start m)
    constructor
    · intro _ f hf
      cases hf
    · intro _
      exact loadsExactly_of_unchanged hret hmem hwritten
  | some f =>
    by_cases hzero : f.content.length = 0
    · obtain ⟨hret, hmem, hwritten⟩ := loadFile_empty privKey path (.start m) hzero
      constructor
      · intro _ g hg
        cases hg
        exact Or.inl hzero
      · intro _
        exact loadsExactly_of_unchanged hret hmem hwritten
    by_cases hlen : f.content.length = fwEd25519PrivateKeyLen
    · constructor
      · intro _ g hg
        cases hg
        exact Or.inr (Or.inl hlen)
      · intro _
        exact loadsExactly_of_length hlen
    rw [loadsExactly_other_iff hzero hlen]
    constructor
    · rintro ⟨hpart, hshort, hsame⟩ g hg
      cases hg
      obtain ⟨herror, hle, hlt⟩ := (transferred_short_iff _).mp ⟨rfl, hpart, hshort⟩
      exact Or.inr (Or.inr ⟨_, herror, hle, hlt, hsame⟩)
    · intro h
      rcases h f rfl with h | h | ⟨k, herror, hle, hlt, hsame⟩
      · exact absurd h hzero
      · exact absurd h hlen
      · obtain ⟨hk, hpart, hshort⟩ := (transferred_short_iff k).mpr ⟨herror, hle, hlt⟩
        rw [hk]
        exact ⟨hpart, hshort, hsame⟩

/-- A key as the build writes it: 64 hexadecimal digits. -/
def hexKeyFile : File where
  content := List.replicate 64 0x30
  readError := none

/-- It is loaded over the end of the key. -/
theorem hex_key_file_overruns :
    ¬ LoadsExactly (some hexKeyFile) (fun _ => 0) 0x7FFF0000
      (cryptoLoadPrivKey (text "key.txt") (some hexKeyFile) 0x7FFF0000 (.start fun _ => 0)).1
      (cryptoLoadPrivKey (text "key.txt") (some hexKeyFile) 0x7FFF0000 (.start fun _ => 0)).2 := by
  intro h
  have herror := (h.other hexKeyFile rfl (by decide)).1
  exact herror rfl

end VerifiedDice.CryptoFiles
