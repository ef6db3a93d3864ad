import Liric.Source.Session.BlobPackage
import Liric.Lib.StateTriple
import Liric.Guarantees.SymbolInterning

/-!
# Blob packages: round trip and rollback

`Imports x bytes names a added` says what a step of the import does on the bytes
the export has written: it consumes them, interns `names` in order, returns `a`
and appends the blobs `added`. The rules follow the way steps are put together.
Every step, successful or not, only appends to the blobs; so the rollback of a
failed import leaves the list as it was.
-/
namespace Liric.Guarantees.BlobRoundTrip
open Lib Source.Ir Source.Session SymbolInterning List

variable {bytes : List UInt8} {name : CStr} {blob : FuncBlob}

section
variable (data : Nat → UInt8) (len : Nat) {α β : Type}

def Imports (x : ImportM α) (bytes : List UInt8) (names : List CStr) (a : α)
    (added : List FuncBlob) : Prop :=
  ∀ s : ImportState, Holds data s.pos bytes → s.pos + bytes.length ≤ len →
    WellFormed s.session.symbols →
    (names.foldl addName s.session.symbols.symbolNames).length < 2 ^ 30 →
    ∃ symbols, WellFormed symbols ∧
      symbols.symbolNames = names.foldl addName s.session.symbols.symbolNames ∧
      x s = some (.ok a, ⟨s.pos + bytes.length, ⟨s.session.blobs ++ added, symbols⟩⟩)

variable {data len}

variable {added : List FuncBlob} {names : List CStr}

theorem Imports.bind {x : ImportM α} {f : α → ImportM β} {bytes' : List UInt8} {names' : List CStr}
    {a : α} {b : β} {added' : List FuncBlob} (hx : Imports data len x bytes names a added)
    (hf : Imports data len (f a) bytes' names' b added') :
    Imports data len (x >>= f) (bytes ++ bytes') (names ++ names') b (added ++ added') := by
  intro s hholds hfits hwf hfew
  obtain ⟨hholds₁, hholds₂⟩ := holds_append.mp hholds
  rw [length_append] at hfits
  rw [foldl_append] at hfew
  have hfew₁ := lt_of_le_of_lt (foldl_addName_extends names' _).length_le hfew
  obtain ⟨symbols₁, hwf₁, hnames₁, hrun₁⟩ := hx s hholds₁ (by omega) hwf hfew₁
  obtain ⟨symbols₂, hwf₂, hnames₂, hrun₂⟩ := hf
    ⟨s.pos + bytes.length, ⟨s.session.blobs ++ added, symbols₁⟩⟩ hholds₂ (by simp only; omega)
    hwf₁ (by simp only [hnames₁]; exact hfew)
  refine ⟨symbols₂, hwf₂, ?_, ?_⟩
  · rw [hnames₂, foldl_append]
    simp only [hnames₁]
  · rw [run_bindExcept hrun₁, hrun₂, length_append, append_assoc, Nat.add_assoc]

theorem Imports.pure (a : α) : Imports data len (Pure.pure a : ImportM α) [] [] a [] := by
  intro s _ _ hwf _
  exact ⟨s.session.symbols, hwf, rfl, by rw [append_nil]; rfl⟩

/-- A check that holds because of the bytes that follow. -/
theorem Imports.afterRequire {ok : ImportState → Bool} {msg : String} {x : ImportM β} {b : β}
    (hok : ∀ s : ImportState, Holds data s.pos bytes → s.pos + bytes.length ≤ len → ok s = true)
    (hx : Imports data len x bytes names b added) :
    Imports data len (do require ok msg; x) bytes names b added := by
  intro s hholds hfits hwf hfew
  have hrun : require ok msg s = some (.ok (), s) := by
    rw [require, hok s hholds hfits]
    rfl
  rw [run_bindExcept hrun]
  exact hx s hholds hfits hwf hfew

theorem imports_r32 (v : Nat) (msg : String) :
    Imports data len (r32 data len msg) (w32 v) [] (BitVec.ofNat 32 v) [] := by
  intro s hholds hfits hwf _
  have hread := hholds.readBytes
  rw [w32, length_leBytes] at hfits hread
  refine ⟨s.session.symbols, hwf, rfl, ?_⟩
  have hvalue : BitVec.ofNat 32 (leNat (leBytes 4 v)) = BitVec.ofNat 32 v := by
    rw [leNat_leBytes]
    apply BitVec.eq_of_toNat_eq
    rw [BitVec.toNat_ofNat, BitVec.toNat_ofNat]
    exact Nat.mod_mod v _
  rw [r32, if_neg (by omega), hread, hvalue, append_nil, w32, length_leBytes]

theorem imports_r64 (v : Nat) (msg : String) :
    Imports data len (r64 data len msg) (w64 v) [] (BitVec.ofNat 64 v) [] := by
  have hbytes : w64 v = w32 v ++ (w32 (v / 256 ^ 4) ++ []) := by
    rw [w64, append_nil]
    exact leBytes_add 4 4 v
  have hvalue : (BitVec.ofNat 32 (v / 256 ^ 4)).setWidth 64 <<< 32 |||
      (BitVec.ofNat 32 v).setWidth 64 = BitVec.ofNat 64 v := by
    apply BitVec.eq_of_getLsbD_eq
    intro i hi
    simp only [BitVec.getLsbD_or, BitVec.getLsbD_shiftLeft, BitVec.getLsbD_setWidth,
      BitVec.getLsbD_ofNat, hi, decide_true, Bool.true_and]
    have hshift : v / 256 ^ 4 = v >>> 32 := by
      rw [Nat.shiftRight_eq_div_pow]
      rfl
    rw [hshift, Nat.testBit_shiftRight]
    by_cases hlow : i < 32
    · simp [hlow]
    · have hsum : 32 + (i - 32) = i := by omega
      have hsmall : i - 32 < 32 := by omega
      simp [hlow, hsum, hsmall, show i - 32 < 64 by omega]
  rw [hbytes, ← hvalue]
  exact (imports_r32 v msg).bind ((imports_r32 (v / 256 ^ 4) msg).bind (Imports.pure _))

theorem imports_slice (bytes : List UInt8) :
    Imports data len (slice data bytes.length) bytes [] bytes [] := by
  intro s hholds _ hwf _
  exact ⟨s.session.symbols, hwf, rfl, by rw [slice, hholds.readBytes, append_nil]⟩

/-- A C string is its bytes up to the first NUL. -/
theorem imports_intern (hnul : 0 ∉ name) (msg : String) :
    Imports data len (moduleInternNameSlice name msg) [] [name] name [] := by
  intro s _ _ hwf hfew
  have hwhole : name.takeWhile (· != 0) = name := takeWhile_of_noNul hnul
  obtain ⟨symbols, hrun, hwf', hnames, -, -⟩ := lrModuleInternSymbol_spec hwf name hfew
  have hmem : name ∈ symbols.symbolNames := by
    rw [hnames, mem_addName]
    exact Or.inr rfl
  have hlt := idxOf_lt_length_of_mem hmem
  have hname : lrModuleSymbolName symbols (symbols.symbolNames.idxOf name) = some name := by
    have hnot : ¬ symbols.symbolNames.idxOf name ≥ symbols.numSymbols := Nat.not_le.mpr hlt
    rw [lrModuleSymbolName, if_neg hnot, List.getElem?_eq_getElem hlt, getElem_idxOf]
  refine ⟨symbols, hwf', hnames, ?_⟩
  rw [moduleInternNameSlice, hwhole, hrun]
  simp only [hname, append_nil, length_nil, Nat.add_zero]

theorem Imports.repeat {γ : Type} {x : ImportM α} {encode : γ → List UInt8}
    {names : γ → List CStr} {value : γ → α} {added : γ → List FuncBlob} (cs : List γ)
    (h : ∀ c ∈ cs, Imports data len x (encode c) (names c) (value c) (added c)) :
    Imports data len (repeatImport x cs.length) (cs.flatMap encode) (cs.flatMap names)
      (cs.map value) (cs.flatMap added) := by
  induction cs with
  | nil => exact Imports.pure []
  | cons c cs ih =>
    have hmore := ih (fun c' hc' => h c' (mem_cons_of_mem c hc'))
    rw [flatMap_cons, flatMap_cons, flatMap_cons]
    refine Imports.bind (h c mem_cons_self) ?_
    rw [← append_nil (cs.flatMap encode), ← append_nil (cs.flatMap names),
      ← append_nil (cs.flatMap added)]
    exact Imports.bind hmore (Imports.pure _)

/-- A non-empty C string whose length fits 32 bits. -/
structure NameOk (name : CStr) : Prop where
  nonempty : name ≠ []
  noNul : 0 ∉ name
  short : name.length < 2 ^ 32

/-- Names are C strings, and every length fits its field. -/
structure BlobOk (blob : FuncBlob) : Prop where
  name : NameOk blob.name
  symbols : ∀ r ∈ blob.relocs, NameOk r.symbolName
  codeLen : blob.code.length < 2 ^ 32
  numRelocs : blob.relocs.length < 2 ^ 32

/-- The names a blob brings along, in the order of its package. -/
def blobNames (blob : FuncBlob) : List CStr := blob.name :: blob.relocs.map CachedReloc.symbolName

theorem exportName_eq (h : NameOk name) : exportName name = w32 name.length ++ name := by
  rw [exportName, Nat.mod_eq_of_lt h.short, take_length]

theorem imports_name (h : NameOk name) (parseMsg internMsg : String) :
    Imports data len (importName data len parseMsg internMsg) (exportName name) [name] name
      [] := by
  have hlen : (BitVec.ofNat 32 name.length).toNat = name.length := by
    rw [BitVec.toNat_ofNat]
    exact Nat.mod_eq_of_lt h.short
  have hpos : name.length ≠ 0 := fun hzero => h.nonempty (length_eq_zero_iff.mp hzero)
  rw [exportName_eq h]
  refine Imports.bind (imports_r32 name.length parseMsg) (Imports.afterRequire ?_ ?_)
  · intro s _ hfits
    simp [hlen, hpos, hfits]
  · have hbody : Imports data len (do
        let bytes ← slice data name.length
        moduleInternNameSlice bytes internMsg) (name ++ []) [name] name [] :=
      Imports.bind (imports_slice name) (imports_intern h.noNul internMsg)
    rw [append_nil] at hbody
    rw [hlen]
    exact hbody

theorem imports_reloc {r : CachedReloc} (h : NameOk r.symbolName) :
    Imports data len (importReloc data len) (exportReloc r) [r.symbolName] r [] := by
  have hvalue : BitVec.ofNat 32 r.offset.toNat = r.offset := by simp
  rw [exportReloc, append_assoc]
  refine Imports.bind (imports_r32 r.offset.toNat _) (Imports.afterRequire ?_ ?_)
  · intro s _ hfits
    simp only [length_append, length_cons, length_nil] at hfits
    simp only [decide_eq_true_eq]
    omega
  · refine Imports.bind (imports_slice [r.type, 0, 0, 0]) ?_
    rw [← append_nil (exportName r.symbolName), hvalue]
    exact Imports.bind (imports_name h _ _) (Imports.pure _)

/-- One blob is read back and appended. -/
theorem imports_blob (h : BlobOk blob) :
    Imports data len (importBlob data len) (exportBlob blob) (blobNames blob) () [blob] := by
  have hcode : (BitVec.ofNat 64 blob.code.length).toNat = blob.code.length := by
    rw [BitVec.toNat_ofNat]
    exact Nat.mod_eq_of_lt (lt_trans h.codeLen (by decide))
  have hrelocs : (BitVec.ofNat 32 blob.relocs.length).toNat = blob.relocs.length := by
    rw [BitVec.toNat_ofNat]
    exact Nat.mod_eq_of_lt h.numRelocs
  have hstore : Imports data len (modify (fun s => { s with session := { s.session with
      blobs := s.session.blobs ++ [blob] } }) : ImportM Unit) [] [] () [blob] := by
    intro s _ _ hwf _
    exact ⟨s.session.symbols, hwf, rfl, rfl⟩
  have hall : Imports data len (repeatImport (importReloc data len) blob.relocs.length)
      (blob.relocs.flatMap exportReloc) (blob.relocs.flatMap (fun r => [r.symbolName]))
      (blob.relocs.map id) (blob.relocs.flatMap (fun _ => [])) :=
    Imports.repeat blob.relocs (fun r hr => imports_reloc (h.symbols r hr))
  have hnames : blob.relocs.flatMap (fun r => [r.symbolName]) =
      blob.relocs.map CachedReloc.symbolName := by
    rw [map_eq_flatMap]
  have hnone : blob.relocs.flatMap (fun _ => ([] : List FuncBlob)) = [] := by simp
  rw [hnames, hnone, map_id] at hall
  rw [exportBlob, append_assoc, append_assoc, append_assoc]
  refine Imports.bind (imports_name h.name _ _) (Imports.bind (imports_r64 blob.code.length _)
    (Imports.afterRequire ?_ ?_))
  · intro s _ hfits
    simp only [length_append] at hfits
    simp only [hcode, decide_eq_true_eq]
    omega
  · refine Imports.bind (imports_r32 blob.relocs.length _) ?_
    rw [hcode, hrelocs]
    refine Imports.bind (imports_slice blob.code) ?_
    rw [← append_nil (blob.relocs.flatMap exportReloc),
      ← append_nil (blob.relocs.map CachedReloc.symbolName)]
    exact Imports.bind hall hstore

variable {blobs : List FuncBlob}

theorem imports_blobs (hblobs : ∀ b ∈ blobs, BlobOk b) (hcount : blobs.length < 2 ^ 32) :
    Imports data len (importBlobs data len)
      (w32 1 ++ (w32 blobs.length ++ blobs.flatMap exportBlob)) (blobs.flatMap blobNames) ()
      blobs := by
  have hn : (BitVec.ofNat 32 blobs.length).toNat = blobs.length := by
    rw [BitVec.toNat_ofNat]
    exact Nat.mod_eq_of_lt hcount
  have hall : Imports data len (repeatImport (importBlob data len) blobs.length)
      (blobs.flatMap exportBlob) (blobs.flatMap blobNames) (blobs.map (fun _ => ()))
      (blobs.flatMap (fun b => [b])) :=
    Imports.repeat blobs (fun b hb => imports_blob (hblobs b hb))
  have hsame : blobs.flatMap (fun b => [b]) = blobs := by simp
  rw [hsame] at hall
  refine Imports.bind (imports_r32 1 _) (Imports.bind (imports_r32 blobs.length _)
    (Imports.afterRequire (fun _ _ _ => rfl) ?_))
  rw [hn]
  have hdone := Imports.bind (f := fun _ => (Pure.pure () : ImportM Unit)) hall (Imports.pure ())
  rw [append_nil, append_nil, append_nil] at hdone
  exact hdone

/-- The bytes of an export are imported, and the blobs are appended in order. -/
theorem importPackage_run (hblobs : ∀ b ∈ blobs, BlobOk b) (hcount : blobs.length < 2 ^ 32)
    (hbytes : bytes = blobPkgMagic ++ (w32 1 ++ (w32 blobs.length ++ blobs.flatMap exportBlob)))
    (hholds : Holds data 0 bytes) (hlen : bytes.length = len) (s : BlobSession)
    (hwf : WellFormed s.symbols)
    (hfew : ((blobs.flatMap blobNames).foldl addName s.symbols.symbolNames).length < 2 ^ 30) :
    ∃ symbols,
      importPackage data len ⟨0, s⟩ = some (.ok (), ⟨len, ⟨s.blobs ++ blobs, symbols⟩⟩) := by
  subst hbytes
  obtain ⟨hmagic, hrest⟩ := holds_append.mp hholds
  have hread : readBytes data 0 8 = blobPkgMagic := hmagic.readBytes
  have hlong : 16 ≤ len := by
    rw [← hlen]
    simp only [length_append, w32, length_leBytes]
    change 16 ≤ 8 + _
    omega
  have hend : 8 + (w32 1 ++ (w32 blobs.length ++ blobs.flatMap exportBlob)).length = len := by
    have hmagicLen : blobPkgMagic.length = 8 := rfl
    rw [← hlen, ← hmagicLen]
    simp only [length_append]
  obtain ⟨symbols, -, -, hrun⟩ := imports_blobs hblobs hcount ⟨8, s⟩ hrest (le_of_eq hend)
    hwf hfew
  simp only [hend] at hrun
  refine ⟨symbols, ?_⟩
  have h₁ : require (fun _ => decide (len ≠ 0)) "invalid import_blob_package arguments"
      (⟨0, s⟩ : ImportState) = some (.ok (), ⟨0, s⟩) := by
    rw [require, if_pos (by simp; omega)]
  have h₂ : require (fun _ => decide (len ≥ 16) && readBytes data 0 8 == blobPkgMagic)
      "invalid blob package magic" (⟨0, s⟩ : ImportState) = some (.ok (), ⟨0, s⟩) := by
    rw [require, if_pos (by simp [hlong, hread])]
  have h₃ : slice data 8 (⟨0, s⟩ : ImportState) = some (.ok (readBytes data 0 8), ⟨8, s⟩) := rfl
  rw [importPackage, run_bindExcept h₁, run_bindExcept h₂, run_bindExcept h₃,
    run_bindExcept hrun, require, if_pos (by simp)]

end

theorem length_exportName (h : NameOk name) : (exportName name).length = 4 + name.length := by
  rw [exportName_eq h, length_append, w32, length_leBytes]

theorem length_exportRelocs {relocs : List CachedReloc} (h : ∀ r ∈ relocs, NameOk r.symbolName) :
    (relocs.flatMap exportReloc).length = (relocs.map relocSize).sum := by
  rw [length_flatMap]
  congr 1
  apply map_congr_left
  intro r hr
  rw [exportReloc, length_append, length_append, length_exportName (h r hr), w32,
    length_leBytes, relocSize]
  simp only [length_cons, length_nil]

theorem length_exportBlob (h : BlobOk blob) : (exportBlob blob).length = blobSize blob := by
  simp only [exportBlob, blobSize, length_append, length_exportName h.name,
    length_exportRelocs h.symbols, w64, w32, length_leBytes]

theorem exportError_none (h : BlobOk blob) : exportError blob = none := by
  have hany : blob.relocs.any (fun r => r.symbolName == []) = false := by
    rw [any_eq_false]
    intro r hr
    simpa using (h.symbols r hr).nonempty
  rw [exportError, if_neg h.name.nonempty, hany]
  rfl

/-- The size that was computed in advance is the size that is written. -/
theorem lrSessionExportBlobPackage_ok (s : BlobSession) (h : ∀ b ∈ s.blobs, BlobOk b) :
    lrSessionExportBlobPackage s = .ok (blobPkgMagic ++
      (w32 1 ++ (w32 s.blobs.length ++ s.blobs.flatMap exportBlob))) := by
  have hnone : s.blobs.findSome? exportError = none := by
    rw [List.findSome?_eq_none_iff]
    exact fun b hb => exportError_none (h b hb)
  have hsizes : s.blobs.map (fun b => (exportBlob b).length) = s.blobs.map blobSize :=
    map_congr_left (fun b hb => length_exportBlob (h b hb))
  have htotal : (blobPkgMagic ++ w32 1 ++ w32 s.blobs.length ++
      s.blobs.flatMap exportBlob).length = 8 + 4 + 4 + (s.blobs.map blobSize).sum := by
    rw [length_append, length_append, length_append, length_flatMap, hsizes]
    simp only [w32, length_leBytes]
    rfl
  simp only [lrSessionExportBlobPackage, hnone, htotal, ne_eq, not_true, if_false]
  rw [append_assoc, append_assoc]

/-- The blobs that were there are still there, in front. -/
def Extends (s t : ImportState) : Prop := s.session.blobs <+: t.session.blobs

theorem Extends.refl (s : ImportState) : Extends s s := prefix_rfl

theorem Extends.trans (s t u : ImportState) (h : Extends s t) (h' : Extends t u) : Extends s u :=
  List.IsPrefix.trans h h'

section Rollback
variable (data : Nat → UInt8) (len : Nat) {α β : Type}

instance frame_bind {x : ImportM α} {f : α → ImportM β} [hx : Frame Extends x.run]
    [hf : ∀ a, Frame Extends (f a).run] : Frame Extends (x >>= f).run :=
  Frame.bindExcept Extends.trans hx hf

instance frame_pure (a : α) : Frame Extends (Pure.pure a : ImportM α).run := by
  constructor
  intro s r t h
  cases h
  exact Extends.refl s

instance frame_require (ok : ImportState → Bool) (msg : String) :
    Frame Extends (require ok msg).run := by
  constructor
  intro s r t h
  cases h
  exact Extends.refl s

instance frame_slice (n : Nat) : Frame Extends (slice data n).run := by
  constructor
  intro s r t h
  cases h
  exact Extends.refl s

instance frame_r32 (msg : String) : Frame Extends (r32 data len msg).run := by
  constructor
  intro s r t h
  change r32 data len msg s = _ at h
  unfold r32 at h
  split at h
  · cases h
    exact Extends.refl s
  · cases h
    exact Extends.refl s

instance frame_intern (bytes : List UInt8) (msg : String) :
    Frame Extends (moduleInternNameSlice bytes msg).run := by
  constructor
  intro s r t h
  change moduleInternNameSlice bytes msg s = _ at h
  unfold moduleInternNameSlice at h
  cases hrun : lrModuleInternSymbol s.session.symbols (bytes.takeWhile (· != 0)) with
  | none => simp [hrun] at h
  | some m =>
    simp only [hrun, Option.some.injEq, Prod.mk.injEq] at h
    obtain ⟨-, rfl⟩ := h
    exact Extends.refl s

instance frame_repeat {x : ImportM α} [hx : Frame Extends x.run] (n : Nat) :
    Frame Extends (repeatImport x n).run := by
  induction n with
  | zero => exact frame_pure []
  | succ n ih =>
    unfold repeatImport
    infer_instance

instance frame_importName (parseMsg internMsg : String) :
    Frame Extends (importName data len parseMsg internMsg).run := by
  unfold importName
  infer_instance

instance frame_importReloc : Frame Extends (importReloc data len).run := by
  unfold importReloc
  infer_instance

instance frame_store (blob : FuncBlob) :
    Frame Extends (modify (fun s => { s with session := { s.session with
      blobs := s.session.blobs ++ [blob] } }) : ImportM Unit).run := by
  constructor
  intro s r t h
  cases h
  exact prefix_append _ _

instance frame_r64 (msg : String) : Frame Extends (r64 data len msg).run := by
  unfold r64
  infer_instance

instance frame_importBlob : Frame Extends (importBlob data len).run := by
  unfold importBlob
  infer_instance

instance frame_importBlobs : Frame Extends (importBlobs data len).run := by
  unfold importBlobs
  infer_instance

instance frame_importPackage : Frame Extends (importPackage data len).run := by
  unfold importPackage
  infer_instance

end Rollback

/-- What a session exports, any session imports: the same blobs are appended in the
same order. And an import that fails leaves the list of blobs as it was. -/
theorem blob_package_round_trip :
    (∀ (producer consumer : BlobSession) (data : Nat → UInt8),
      (∀ b ∈ producer.blobs, BlobOk b) → producer.blobs.length < 2 ^ 32 →
      WellFormed consumer.symbols →
      ((producer.blobs.flatMap blobNames).foldl addName consumer.symbols.symbolNames).length <
        2 ^ 30 →
      ∃ bytes, lrSessionExportBlobPackage producer = .ok bytes ∧
        (Holds data 0 bytes →
          ∃ symbols, lrSessionImportBlobPackage data bytes.length consumer =
            some (0, none, ⟨consumer.blobs ++ producer.blobs, symbols⟩))) ∧
    ∀ (data : Nat → UInt8) (len : Nat) (s s' : BlobSession) (err : Option String),
      lrSessionImportBlobPackage data len s = some (-1, err, s') → s'.blobs = s.blobs := by
  constructor
  · intro producer consumer data hblobs hcount hwf hfew
    refine ⟨_, lrSessionExportBlobPackage_ok producer hblobs, fun hholds => ?_⟩
    obtain ⟨symbols, hrun⟩ := importPackage_run hblobs hcount rfl hholds rfl consumer hwf hfew
    exact ⟨symbols, by rw [lrSessionImportBlobPackage, hrun]⟩
  · intro data len s s' err h
    unfold lrSessionImportBlobPackage at h
    cases hrun : importPackage data len ⟨0, s⟩ with
    | none => simp [hrun] at h
    | some r =>
      obtain ⟨result, t⟩ := r
      have hext : Extends ⟨0, s⟩ t := (frame_importPackage data len).run _ _ _ hrun
      cases result with
      | ok u => simp [hrun] at h
      | error msg =>
        simp only [hrun, Option.some.injEq, Prod.mk.injEq] at h
        obtain ⟨-, -, rfl⟩ := h
        obtain ⟨more, hmore⟩ := hext
        rw [← hmore]
        exact take_left

/-- One function `f` of three bytes with a relocation against `g`. -/
def sampleSession : BlobSession where
  blobs := [{ name := [102], code := [0x90, 0x90, 0xC3],
              relocs := [{ offset := 1, type := 2, symbolName := [103] }] }]
  symbols := .empty

theorem blob_package_round_trip_sample :
    ∃ bytes, lrSessionExportBlobPackage sampleSession = .ok bytes ∧
      ∃ symbols, lrSessionImportBlobPackage (fun i => bytes.getD i 0) bytes.length
        ⟨[], .empty⟩ = some (0, none, ⟨sampleSession.blobs, symbols⟩) := by
  have hblobs : ∀ b ∈ sampleSession.blobs, BlobOk b := by
    intro b hb
    obtain rfl : b = _ := mem_singleton.mp hb
    refine ⟨⟨by decide, by decide, by decide⟩, ?_, by decide, by decide⟩
    intro r hr
    obtain rfl : r = _ := mem_singleton.mp hr
    exact ⟨by decide, by decide, by decide⟩
  obtain ⟨hround, -⟩ := blob_package_round_trip
  obtain ⟨bytes, hexport, -⟩ := hround sampleSession ⟨[], .empty⟩ (fun _ => 0) hblobs
    (by decide) wellFormed_empty (by decide)
  obtain ⟨bytes', hexport', himport⟩ := hround sampleSession ⟨[], .empty⟩
    (fun i => bytes.getD i 0) hblobs (by decide) wellFormed_empty (by decide)
  obtain rfl : bytes = bytes' := Except.ok.inj (hexport.symm.trans hexport')
  refine ⟨bytes, hexport, himport ?_⟩
  intro i hi
  change bytes.getD (0 + i) 0 = bytes[i]
  rw [Nat.zero_add, getD_eq_getElem?_getD, List.getElem?_eq_getElem hi]
  rfl

end Liric.Guarantees.BlobRoundTrip
