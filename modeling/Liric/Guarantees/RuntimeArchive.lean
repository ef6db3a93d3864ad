import Liric.Source.RuntimeArchive

/-!
# Runtime archives: round trip and exactness

The parser accepts exactly the bytes the writer emits: an accepted input is the header of its
three texts followed by them, and nothing else.
-/
namespace Liric.Guarantees.RuntimeArchive
open Lib Source Source.Ir List Option

section Reads
variable {data pre field post : List UInt8}

theorem bytesAt_next (h : data = pre ++ (field ++ post)) :
    bytesAt data pre.length field.length = field := by
  rw [h, bytesAt_append_right (le_rfl), Nat.sub_self,
    bytesAt_append_left (le_of_eq (Nat.zero_add _)), bytesAt_zero_length]

theorem move_next (h : data = pre ++ (field ++ post)) : data = (pre ++ field) ++ post := by
  rw [h, append_assoc]

variable {p n : Nat}

theorem read_next {v : Nat} (h : data = pre ++ (leBytes n v ++ post)) (hp : pre.length = p)
    (hv : v < 256 ^ n) : runtimeArchiveRead data n p = some (v, p + n) := by
  subst hp
  have hbytes := bytesAt_next h
  rw [length_leBytes] at hbytes
  have hlen : ¬ data.length - pre.length < n := by
    rw [h, length_append, length_append, length_leBytes]
    omega
  rw [runtimeArchiveRead, if_neg hlen, hbytes, leNat_leBytes, Nat.mod_eq_of_lt hv]

theorem slice_next (h : data = pre ++ (field ++ post)) (hp : pre.length = p) :
    runtimeArchiveSlice data field.length p = some (⟨p, field.length⟩, p + field.length) := by
  subst hp
  have hlen : ¬ field.length > data.length - pre.length := by
    rw [h, length_append, length_append]
    omega
  rw [runtimeArchiveSlice, if_neg hlen]

/-- A word that was read stands at its place. -/
theorem read_inv {v q : Nat} (hp : p ≤ data.length)
    (h : runtimeArchiveRead data n p = some (v, q)) :
    q = p + n ∧ q ≤ data.length ∧ bytesAt data p n = leBytes n v ∧ v < 256 ^ n := by
  rw [runtimeArchiveRead] at h
  obtain ⟨hlen, h⟩ := ite_none_left_eq_some.1 h
  cases h
  have hfits : p + n ≤ data.length := by omega
  have hwidth := length_bytesAt hfits
  refine ⟨rfl, hfits, ?_, ?_⟩
  · have hback := leBytes_leNat (bytesAt data p n)
    rw [hwidth] at hback
    exact hback.symm
  · have hlt := leNat_lt (bytesAt data p n)
    rwa [hwidth] at hlt

theorem slice_inv {q : Nat} {s : Slice} (hp : p ≤ data.length)
    (h : runtimeArchiveSlice data n p = some (s, q)) :
    s = ⟨p, n⟩ ∧ q = p + n ∧ q ≤ data.length := by
  rw [runtimeArchiveSlice] at h
  obtain ⟨hlen, h⟩ := ite_none_left_eq_some.1 h
  cases h
  exact ⟨rfl, rfl, by omega⟩

end Reads

/-- The texts of an archive, with lengths that fit their fields. -/
structure Archive where
  backend : BitVec 32
  name : List UInt8
  irText : List UInt8
  blobPkg : List UInt8
  backend_ne : backend ≠ 0
  name_ne : name ≠ []
  irText_ne : irText ≠ []
  blobPkg_ne : blobPkg ≠ []
  name_lt : name.length < 2 ^ 32
  irText_lt : irText.length < 2 ^ 64
  blobPkg_lt : blobPkg.length < 2 ^ 64

namespace Archive
variable (a : Archive)

def bytes : List UInt8 :=
  runtimeArchiveHeader a.backend a.name.length a.irText.length a.blobPkg.length ++ a.name ++
    a.irText ++ a.blobPkg

def info : RuntimeArchiveInfo where
  version := 2
  backend := a.backend
  targetName := ⟨36, a.name.length⟩
  irText := ⟨36 + a.name.length, a.irText.length⟩
  blobPkg := ⟨36 + a.name.length + a.irText.length, a.blobPkg.length⟩

theorem length_header (backend : BitVec 32) (n k l : Nat) :
    (runtimeArchiveHeader backend n k l).length = 36 := by
  simp [runtimeArchiveHeader, runtimeArchiveMagic]

theorem length_bytes :
    a.bytes.length = 36 + a.name.length + a.irText.length + a.blobPkg.length := by
  rw [bytes, length_append, length_append, length_append, length_header]

theorem bytes_eq : a.bytes = runtimeArchiveMagic ++ (leBytes 4 2 ++ (leBytes 4 a.backend.toNat ++
    (leBytes 4 a.name.length ++ (leBytes 8 a.irText.length ++ (leBytes 8 a.blobPkg.length ++
      (a.name ++ (a.irText ++ (a.blobPkg ++ [])))))))) := by
  simp only [bytes, runtimeArchiveHeader, append_assoc, append_nil]

/-- The slices of the description are the texts. -/
theorem slices_bytes : a.info.targetName.bytes a.bytes = a.name ∧
    a.info.irText.bytes a.bytes = a.irText ∧ a.info.blobPkg.bytes a.bytes = a.blobPkg := by
  have hheader := length_header a.backend a.name.length a.irText.length a.blobPkg.length
  have hname : a.bytes = runtimeArchiveHeader a.backend a.name.length a.irText.length
      a.blobPkg.length ++ (a.name ++ (a.irText ++ (a.blobPkg ++ []))) := by
    simp only [bytes, append_assoc, append_nil]
  have hir := move_next hname
  have hblob := move_next hir
  refine ⟨?_, ?_, ?_⟩
  · have h := bytesAt_next hname
    rwa [hheader] at h
  · have h := bytesAt_next hir
    rwa [length_append, hheader] at h
  · have h := bytesAt_next hblob
    rwa [length_append, length_append, hheader] at h

theorem parse_bytes : lrRuntimeArchiveParse a.bytes = some a.info := by
  have hmagic : bytesAt a.bytes 0 8 = runtimeArchiveMagic := by
    have h : a.bytes = [] ++ (runtimeArchiveMagic ++ _) := a.bytes_eq
    exact bytesAt_next h
  have hversion := a.bytes_eq
  have hbackend := move_next hversion
  have hnameLen := move_next hbackend
  have hirLen := move_next hnameLen
  have hblobLen := move_next hirLen
  have hname := move_next hblobLen
  have hir := move_next hname
  have hblob := move_next hir
  have hlen := a.length_bytes
  have hname_pos := length_pos_iff.2 a.name_ne
  have hir_pos := length_pos_iff.2 a.irText_ne
  have hblob_pos := length_pos_iff.2 a.blobPkg_ne
  have hbackend_ne : a.backend.toNat ≠ 0 := fun h => a.backend_ne (BitVec.eq_of_toNat_eq h)
  have hread₁ : runtimeArchiveRead a.bytes 4 8 = some (2, 12) := read_next hversion rfl (by decide)
  have hread₂ : runtimeArchiveRead a.bytes 4 12 = some (a.backend.toNat, 16) :=
    read_next hbackend rfl a.backend.isLt
  have hread₃ : runtimeArchiveRead a.bytes 4 16 = some (a.name.length, 20) :=
    read_next hnameLen rfl a.name_lt
  have hread₄ : runtimeArchiveRead a.bytes 8 20 = some (a.irText.length, 28) :=
    read_next hirLen rfl a.irText_lt
  have hread₅ : runtimeArchiveRead a.bytes 8 28 = some (a.blobPkg.length, 36) :=
    read_next hblobLen rfl a.blobPkg_lt
  have hslice₁ := slice_next (p := 36) hname rfl
  have hslice₂ := slice_next (p := 36 + a.name.length) hir (by rw [length_append]; rfl)
  have hslice₃ := slice_next (p := 36 + a.name.length + a.irText.length) hblob
    (by rw [length_append, length_append]; rfl)
  have hshort : ¬ a.bytes.length < 32 := by omega
  have hempty : ¬ (a.irText.length = 0 ∨ a.blobPkg.length = 0) := by omega
  simp only [lrRuntimeArchiveParse, if_neg hshort, hmagic, hread₁, hread₂, hread₃, hread₄, hread₅,
    hslice₁, hslice₂, hslice₃, hbackend_ne, hname_pos.ne', hempty, ← hlen, bind_eq_bind, bind_some,
    ne_eq, not_true, if_false, BitVec.ofNat_toNat, BitVec.setWidth_eq]
  rfl

theorem of_guard {α : Type} {c : Prop} [Decidable c] {x : Option α} {a : α}
    (h : (if c then none else x) = some a) : ¬ c ∧ x = some a := by
  split at h
  · cases h
  · exact ⟨‹_›, h⟩

/-- What is accepted is the bytes of an archive. -/
theorem of_parse {data : List UInt8} {info : RuntimeArchiveInfo}
    (h : lrRuntimeArchiveParse data = some info) :
    ∃ a : Archive, data = a.bytes ∧ info = a.info := by
  rw [lrRuntimeArchiveParse] at h
  obtain ⟨hlong, h⟩ := of_guard h
  obtain ⟨hmagic, h⟩ := of_guard h
  obtain ⟨⟨version, p₁⟩, hread₁, h⟩ := bind_eq_some_iff.1 h
  obtain ⟨hversion, h⟩ := of_guard h
  obtain ⟨⟨backend, p₂⟩, hread₂, h⟩ := bind_eq_some_iff.1 h
  obtain ⟨hbackend, h⟩ := of_guard h
  obtain ⟨⟨nameLen, p₃⟩, hread₃, h⟩ := bind_eq_some_iff.1 h
  obtain ⟨hnameLen, h⟩ := of_guard h
  obtain ⟨⟨irLen, p₄⟩, hread₄, h⟩ := bind_eq_some_iff.1 h
  obtain ⟨⟨blobLen, p₅⟩, hread₅, h⟩ := bind_eq_some_iff.1 h
  obtain ⟨hlens, h⟩ := of_guard h
  obtain ⟨⟨name, p₆⟩, hslice₁, h⟩ := bind_eq_some_iff.1 h
  obtain ⟨⟨irText, p₇⟩, hslice₂, h⟩ := bind_eq_some_iff.1 h
  obtain ⟨⟨blobPkg, p₈⟩, hslice₃, h⟩ := bind_eq_some_iff.1 h
  obtain ⟨hend, hinfo⟩ := of_guard h
  rw [Decidable.not_not] at hmagic hversion hend
  subst hversion
  obtain ⟨rfl, hp₁, hbytes₁, -⟩ := read_inv (by omega) hread₁
  obtain ⟨rfl, hp₂, hbytes₂, hbackend_lt⟩ := read_inv hp₁ hread₂
  obtain ⟨rfl, hp₃, hbytes₃, hname_lt⟩ := read_inv hp₂ hread₃
  obtain ⟨rfl, hp₄, hbytes₄, hir_lt⟩ := read_inv hp₃ hread₄
  obtain ⟨rfl, hp₅, hbytes₅, hblob_lt⟩ := read_inv hp₄ hread₅
  obtain ⟨rfl, rfl, hp₆⟩ := slice_inv hp₅ hslice₁
  obtain ⟨rfl, rfl, hp₇⟩ := slice_inv hp₆ hslice₂
  obtain ⟨rfl, rfl, hp₈⟩ := slice_inv hp₇ hslice₃
  have hname := length_bytesAt hp₆
  have hir := length_bytesAt hp₇
  have hblob := length_bytesAt hp₈
  have hbackend_mod : backend % 2 ^ 32 = backend := Nat.mod_eq_of_lt hbackend_lt
  have hne : ∀ {n : Nat} {bs : List UInt8}, bs.length = n → n ≠ 0 → bs ≠ [] :=
    fun hn hn0 hnil => hn0 (by rw [← hn, hnil, length_nil])
  refine ⟨⟨BitVec.ofNat 32 backend, bytesAt data 36 nameLen, bytesAt data (36 + nameLen) irLen,
    bytesAt data (36 + nameLen + irLen) blobLen, ?_, hne hname hnameLen,
    hne hir (fun h0 => hlens (.inl h0)), hne hblob (fun h0 => hlens (.inr h0)), ?_, ?_, ?_⟩, ?_, ?_⟩
  · intro hzero
    have hval := congrArg BitVec.toNat hzero
    rw [BitVec.toNat_ofNat, hbackend_mod] at hval
    exact hbackend hval
  · rwa [hname]
  · rwa [hir]
  · rwa [hblob]
  · have hall : data = bytesAt data 0 (8 + 4 + 4 + 4 + 8 + 8 + nameLen + irLen + blobLen) :=
      (bytesAt_all hend.symm).symm
    change data = runtimeArchiveHeader (BitVec.ofNat 32 backend) (bytesAt data 36 nameLen).length
      (bytesAt data (36 + nameLen) irLen).length
      (bytesAt data (36 + nameLen + irLen) blobLen).length
        ++ bytesAt data 36 nameLen ++ bytesAt data (36 + nameLen) irLen ++
          bytesAt data (36 + nameLen + irLen) blobLen
    rw [hname, hir, hblob, runtimeArchiveHeader, BitVec.toNat_ofNat, hbackend_mod,
      ← hmagic, ← hbytes₁, ← hbytes₂, ← hbytes₃, ← hbytes₄, ← hbytes₅]
    rw [bytesAt_add, bytesAt_add, bytesAt_add, bytesAt_add, bytesAt_add, bytesAt_add, bytesAt_add,
      bytesAt_add] at hall
    simpa only [Nat.zero_add, Nat.reduceAdd] using hall
  · change info = ⟨2, BitVec.ofNat 32 backend, ⟨36, (bytesAt data 36 nameLen).length⟩,
      ⟨36 + (bytesAt data 36 nameLen).length, (bytesAt data (36 + nameLen) irLen).length⟩,
      ⟨36 + (bytesAt data 36 nameLen).length + (bytesAt data (36 + nameLen) irLen).length,
        (bytesAt data (36 + nameLen + irLen) blobLen).length⟩⟩
    rw [hname, hir, hblob]
    exact (Option.some.inj hinfo).symm

end Archive

theorem Archive.write (a : Archive) (h : 0 ∉ a.name) :
    lrRuntimeArchiveWrite a.name a.backend a.irText a.blobPkg = some a.bytes := by
  have hargs : ¬ (a.name = [] ∨ a.backend = 0 ∨ a.irText = [] ∨ a.blobPkg = []) := by
    rintro (h | h | h | h)
    · exact a.name_ne h
    · exact a.backend_ne h
    · exact a.irText_ne h
    · exact a.blobPkg_ne h
  have hlen : ¬ a.name.length > uint32Max := by
    have hlt := a.name_lt
    rw [uint32Max]
    omega
  rw [lrRuntimeArchiveWrite, takeWhile_of_noNul h, if_neg hargs, if_neg hlen]
  rfl

/-- The slices stand one behind the other, from the header to the end of the input. -/
structure Exhausts (info : RuntimeArchiveInfo) (data : List UInt8) : Prop where
  targetName : info.targetName.off = 36
  irText : info.irText.off = info.targetName.off + info.targetName.len
  blobPkg : info.blobPkg.off = info.irText.off + info.irText.len
  end_ : info.blobPkg.off + info.blobPkg.len = data.length

/-- What is written is parsed, unless the name is too long to be written; what is parsed is
what would be written. -/
theorem archive_exact :
    (∀ (name : CStr) (backend : BitVec 32) (irText blobPkg : List UInt8), name ≠ [] → 0 ∉ name →
      backend ≠ 0 → irText ≠ [] → blobPkg ≠ [] → irText.length < 2 ^ 64 →
      blobPkg.length < 2 ^ 64 →
      (uint32Max < name.length ∧ lrRuntimeArchiveWrite name backend irText blobPkg = none) ∨
      ∃ bytes info, lrRuntimeArchiveWrite name backend irText blobPkg = some bytes ∧
        lrRuntimeArchiveParse bytes = some info ∧ info.backend = backend ∧
        info.targetName.bytes bytes = name ∧ info.irText.bytes bytes = irText ∧
        info.blobPkg.bytes bytes = blobPkg) ∧
    ∀ (data : List UInt8) (info : RuntimeArchiveInfo), lrRuntimeArchiveParse data = some info →
      Exhausts info data ∧ (0 ∉ info.targetName.bytes data →
        lrRuntimeArchiveWrite (info.targetName.bytes data) info.backend (info.irText.bytes data)
          (info.blobPkg.bytes data) = some data) := by
  constructor
  · intro name backend irText blobPkg hname hnul hbackend hir hblob hir_lt hblob_lt
    by_cases hlong : uint32Max < name.length
    · refine .inl ⟨hlong, ?_⟩
      rw [lrRuntimeArchiveWrite, takeWhile_of_noNul hnul, if_neg (by tauto), if_pos hlong]
    · have hname_lt : name.length < 2 ^ 32 := by
        rw [uint32Max] at hlong
        omega
      let a : Archive :=
        ⟨backend, name, irText, blobPkg, hbackend, hname, hir, hblob, hname_lt, hir_lt, hblob_lt⟩
      exact .inr ⟨a.bytes, a.info, a.write hnul, a.parse_bytes, rfl, a.slices_bytes⟩
  · intro data info hparse
    obtain ⟨a, rfl, rfl⟩ := Archive.of_parse hparse
    obtain ⟨hname, hir, hblob⟩ := a.slices_bytes
    refine ⟨⟨rfl, rfl, rfl, a.length_bytes.symm⟩, fun hnul => ?_⟩
    rw [hname] at hnul
    rw [hname, hir, hblob]
    exact a.write hnul

/-- The target `x` with a text and a package of one byte each. -/
theorem archive_exact_x :
    ∃ bytes info, lrRuntimeArchiveWrite [120] 1 [65] [66] = some bytes ∧
      lrRuntimeArchiveParse bytes = some info ∧ info.backend = 1 ∧
      info.targetName.bytes bytes = [120] ∧ info.irText.bytes bytes = [65] ∧
      info.blobPkg.bytes bytes = [66] ∧ Exhausts info bytes := by
  obtain hlong | ⟨bytes, info, hwrite, hparse, hrest⟩ := archive_exact.1 [120] 1 [65] [66]
    (by decide) (by decide) (by decide) (by decide) (by decide) (by decide) (by decide)
  · exact absurd hlong.1 (by decide)
  · obtain ⟨hbackend, hname, hir, hblob⟩ := hrest
    exact ⟨bytes, info, hwrite, hparse, hbackend, hname, hir, hblob,
      (archive_exact.2 bytes info hparse).1⟩

end Liric.Guarantees.RuntimeArchive
