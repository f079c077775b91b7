import ImageBuild.Proofs.Archive.Chunks
import ImageBuild.Proofs.Context.Dockerfile
/-!
# The bytes of a context

The reader of a context is sent the bytes of its archive in chunks, and then the fault if packing broke off.  What is
held back at a fault is never sent, so a stream that stops short has a fault for its last item, and one without a fault
holds all that was to be packed.
-/

namespace ImageBuild.Archive

/-- The bytes that were written, cut into chunks. -/
structure IsCut (writes chunks : List (List UInt8)) : Prop where
  flatten : chunks.flatten = writes.flatten
  ne_nil : ∀ chunk ∈ chunks, chunk ≠ []
  full : ∀ chunk ∈ chunks.dropLast, chunkSize ≤ chunk.length

variable {writes : List (List UInt8)} {c : Chunks (List UInt8)}

theorem sizeBy_length (writes : List (List UInt8)) : sizeBy List.length writes = writes.flatten.length := by
  induction writes with
  | nil => rfl
  | cons x writes ih => rw [sizeBy, ih, List.flatten_cons, List.length_append]

namespace Chunks

/-- The bytes of each chunk that was sent. -/
def bytes (c : Chunks (List UInt8)) : List (List UInt8) := c.sent.map List.flatten

theorem Follows.full (h : c.Follows List.length chunkSize writes) :
    ∀ chunk ∈ c.bytes, chunkSize ≤ chunk.length := by
  intro chunk hchunk
  obtain ⟨parts, hparts, rfl⟩ := List.mem_map.1 hchunk
  rw [← sizeBy_length]
  exact h.enough parts hparts

theorem ne_nil_of_full {chunk : List UInt8} (h : chunkSize ≤ chunk.length) : chunk ≠ [] := by
  rintro rfl
  exact absurd h (by decide)

theorem Follows.flatten_bytes (h : c.Follows List.length chunkSize writes) :
    c.bytes.flatten ++ c.held.flatten = writes.flatten := by
  rw [bytes, ← List.flatten_flatten, ← List.flatten_append, h.parts]

theorem Follows.isCut (h : c.Follows List.length chunkSize writes) :
    IsCut writes (c.flush List.length).bytes := by
  have hbytes := h.flatten_bytes
  by_cases hheld : sizeBy List.length c.held = 0
  · rw [flush_of_eq_zero hheld]
    rw [sizeBy_length, List.length_eq_zero_iff] at hheld
    rw [hheld, List.append_nil] at hbytes
    exact ⟨hbytes, fun chunk hchunk => ne_nil_of_full (h.full chunk hchunk),
      fun chunk hchunk => h.full chunk (List.mem_of_mem_dropLast hchunk)⟩
  · have hlast : (c.flush List.length).bytes = c.bytes ++ [c.held.flatten] := by
      rw [flush_of_ne_zero hheld, bytes, List.map_append]
      rfl
    rw [sizeBy_length, List.length_eq_zero_iff] at hheld
    rw [hlast]
    refine ⟨?_, fun chunk hchunk => ?_, fun chunk hchunk => ?_⟩
    · rw [List.flatten_append, List.flatten_singleton, hbytes]
    · rcases List.mem_append.1 hchunk with hchunk | hchunk
      · exact ne_nil_of_full (h.full chunk hchunk)
      · rwa [List.mem_singleton.1 hchunk]
    · rw [List.dropLast_concat] at hchunk
      exact h.full chunk hchunk

end Chunks

theorem follows_writes (writes : List (List UInt8)) :
    (Chunks.ofWrites List.length chunkSize writes).Follows List.length chunkSize writes :=
  Chunks.follows_ofWrites (by decide) writes

theorem isCut_iterate_flush (writes : List (List UInt8)) (n : Nat) :
    IsCut writes ((Chunks.flush List.length)^[n + 1] (Chunks.ofWrites List.length chunkSize writes)).bytes := by
  rw [Chunks.iterate_flush]
  exact (follows_writes writes).isCut

/-! ## Delivering writes -/

/-- What the reader gets of some writes: the bytes of each chunk, and then the fault if there is one. -/
def deliver (writes : List (List UInt8)) (fault : Option IoError) : List (Except IoError (List UInt8)) :=
  ((chunksOf List.length writes fault).map List.flatten).map .ok ++ fault.toList.map .error

theorem isCut_chunksOf (writes : List (List UInt8)) :
    IsCut writes ((chunksOf List.length writes none).map List.flatten) :=
  isCut_iterate_flush writes 0

theorem full_chunksOf (writes : List (List UInt8)) (e : IoError) :
    ∀ chunk ∈ (chunksOf List.length writes (some e)).map List.flatten, chunkSize ≤ chunk.length :=
  (follows_writes writes).full

theorem isPrefix_chunksOf (writes : List (List UInt8)) (e : IoError) :
    ((chunksOf List.length writes (some e)).map List.flatten).flatten <+: writes.flatten :=
  ⟨_, (follows_writes writes).flatten_bytes⟩

/-- What each piece of an archive is written as. -/
structure Format where
  bytes : List Piece → List (List UInt8)
  length_bytes : ∀ pieces, (bytes pieces).map List.length = pieces.map Piece.size

/-- What is passed on of the writes to a compressed stream, and how it is read again. -/
structure Coder where
  encode : List (List UInt8) → List (List UInt8)
  decode : List UInt8 → Option (List UInt8)
  decode_encode : ∀ writes, decode (encode writes).flatten = some writes.flatten

/-- The sizes of what is passed on of an archive. -/
def Coder.encoder (coder : Coder) (format : Format) : Encoder :=
  fun a => (coder.encode (format.bytes a.pieces)).map List.length

end ImageBuild.Archive

namespace ImageBuild.Context

open Archive (Format Coder IsCut deliver chunksOf chunkSize)

variable {fs : FileSystem} {dockerfile : Path} {spec : BuildSpec} {remote : Bool} {c : Context} {e : IoError}

/-- The writes that come to the chunks of a context. -/
def writes (format : Format) (coder : Coder) (c : Context) : List (List UInt8) :=
  if c.compressed then coder.encode (format.bytes c.archive.pieces) else format.bytes c.archive.pieces

/-- What the reader of a context is sent. -/
def sends (format : Format) (coder : Coder) (c : Context) : List (Except IoError (List UInt8)) :=
  deliver (c.writes format coder) c.archive.fault

/-- What the bytes that were sent of a context stand for. -/
def decoded (coder : Coder) (c : Context) (bytes : List UInt8) : Option (List UInt8) :=
  if c.compressed then coder.decode bytes else some bytes

theorem sizes_encoder (format : Format) (coder : Coder) (c : Context) :
    c.sizes (coder.encoder format) = (c.writes format coder).map List.length := by
  rw [sizes, writes]
  split
  · rfl
  · exact (format.length_bytes _).symm

/-- What is sent of a context is as long as what counts for its upload. -/
theorem map_length_sends (format : Format) (coder : Coder) (c : Context) :
    (c.sends format coder).map (Except.map List.length) = c.reads (coder.encoder format) := by
  have hlength := Archive.map_sizeBy_chunksOf List.length (c.writes format coder) c.archive.fault
  rw [← sizes_encoder] at hlength
  have hok := congrArg (List.map fun size => (.ok size : Except IoError Nat)) hlength
  rw [reads, sends, deliver]
  simpa [Archive.sizeBy_length, Except.map, Function.comp_def] using hok

theorem decoded_writes (format : Format) (coder : Coder) (c : Context) :
    c.decoded coder (c.writes format coder).flatten = some (format.bytes c.archive.pieces).flatten := by
  rw [decoded, writes]
  split_ifs
  · exact coder.decode_encode _
  · rfl

/-- Everything in the tree that is wanted was packed, and then all that is added to it. -/
def IsWhole (fs : FileSystem) (dockerfile : Path) (spec : BuildSpec) (c : Context) : Prop :=
  ∃ tree added rules packed, fs.find spec.workDir = .ok tree ∧
    additions fs dockerfile (dockerfile.relativeTo? spec.workDir) = .ok added ∧
    Ignore.Rules.load fs spec.workDir spec.ignoreFile (dockerfile.relativeTo? spec.workDir) = .ok rules ∧
    ((Archive.walk (Archive.isEntered rules added) "" tree).filter fun f =>
      Archive.isWanted rules added f.name).map (Archive.Found.entry spec.workDir) = packed.map .ok ∧
    (tree.IsProper →
      (Archive.wanted rules added (FileTree.located tree)).map (Archive.Found.entry spec.workDir) =
        packed.map .ok) ∧
    c.archive.entries = packed ++ added.entries

theorem isWhole_iff (h : package fs dockerfile spec remote = .ok c) :
    c.IsWhole fs dockerfile spec ↔ c.archive.fault = none := by
  obtain ⟨added, rules, hadded, hrules, rfl⟩ := package_eq_ok_iff.1 h
  constructor
  · rintro ⟨tree, added', rules', packed, hfind, hadded', hrules', hpacked, -, -⟩
    cases hadded.symm.trans hadded'
    cases hrules.symm.trans hrules'
    simp only [Archive.pack, hfind, Archive.ofTree, Archive.fault_append]
    exact Archive.fault_of_map_entry hpacked
  · intro hfault
    obtain ⟨tree, hfind, hpack⟩ := Archive.pack_eq_ofTree hfault
    simp only [hpack, Archive.ofTree, Archive.fault_append] at hfault
    have hpacked := Archive.map_entry_ofFound hfault
    refine ⟨tree, added, rules, _, hfind, hadded, hrules, hpacked, fun ht => ?_, ?_⟩
    · rwa [← Archive.filter_walk_wanted ht]
    · simp only [hpack, Archive.ofTree]
      exact Archive.entries_append hfault _

theorem mem_sends_iff (format : Format) (coder : Coder) :
    .error e ∈ c.sends format coder ↔ c.archive.fault = some e := by
  simp [sends, deliver, Option.mem_toList]

theorem forall_notMem_sends_iff (format : Format) (coder : Coder) :
    (∀ e, .error e ∉ c.sends format coder) ↔ c.archive.fault = none := by
  simp only [mem_sends_iff, Option.eq_none_iff_forall_ne_some, ne_eq]

/-- What is written comes out of the chunks unchanged, and none of them is empty, nor any but the last short.  The
reader of a context gets chunks and then the fault, if packing broke off.  What it gets is without a fault just if all
that was wanted was packed, and then it has the whole archive. -/
theorem package_sends_whole :
    (∀ writes n, IsCut writes
      ((Archive.Chunks.flush List.length)^[n + 1] (Archive.Chunks.ofWrites List.length chunkSize writes)).bytes) ∧
    ∀ fs dockerfile spec remote c, package fs dockerfile spec remote = .ok c → ∀ format coder, ∃ chunks,
      c.sends format coder = chunks.map .ok ++ c.archive.fault.toList.map .error ∧
      (c.sends format coder).map (Except.map List.length) = c.reads (coder.encoder format) ∧
      (∀ e, .error e ∈ c.sends format coder →
        chunks.flatten <+: (c.writes format coder).flatten ∧ ∀ chunk ∈ chunks, chunkSize ≤ chunk.length) ∧
      ((∀ e, .error e ∉ c.sends format coder) →
        IsCut (c.writes format coder) chunks ∧
        c.decoded coder chunks.flatten = some (format.bytes c.archive.pieces).flatten) ∧
      ((∀ e, .error e ∉ c.sends format coder) ↔ c.IsWhole fs dockerfile spec) := by
  refine ⟨Archive.isCut_iterate_flush, fun fs dockerfile spec remote c h format coder => ?_⟩
  have hnone := forall_notMem_sends_iff (c := c) format coder
  refine ⟨(chunksOf List.length (c.writes format coder) c.archive.fault).map List.flatten, rfl,
    map_length_sends format coder c, fun e he => ?_, fun he => ?_, hnone.trans (isWhole_iff h).symm⟩
  · rw [(mem_sends_iff format coder).1 he]
    exact ⟨Archive.isPrefix_chunksOf _ e, Archive.full_chunksOf _ e⟩
  · have hcut := Archive.isCut_chunksOf (c.writes format coder)
    rw [hnone.1 he]
    exact ⟨hcut, by rw [hcut.flatten, decoded_writes]⟩

/-! ## A tree with at most a socket -/

/-- A directory `/app` with these entries, and nothing beside it. -/
def appSystem (entries : List (FileName × FileTree)) : FileSystem where
  root := .dir [([97, 112, 112], .dir entries)]

/-- Zeros are the end of an archive, and all of an archive without entries. -/
def zeros : Format where
  bytes pieces := pieces.map fun x => List.replicate x.size 0
  length_bytes pieces := by simp

def asIs : Coder where
  encode writes := writes
  decode := some
  decode_encode _ := rfl

/-- The entry `z.sock`. -/
def sock : FileName × FileTree := ([122, 46, 115, 111, 99, 107], .socket)

theorem flatten_zeros (fault : Option IoError) :
    (zeros.bytes (Archive.pieces ⟨[], fault⟩)).flatten = List.replicate 1024 0 := by
  have hsize : Archive.Piece.trailer.size = 1024 := rfl
  rw [← hsize]
  exact List.append_nil _

theorem appSystem_find_app (entries : List (FileName × FileTree)) :
    (appSystem entries).find ⟨"/app"⟩ = .ok (.dir entries) :=
  FileSystem.find_of_at? [[97, 112, 112]] (by decide) (by decide) (by decide) (by decide) nofun rfl

theorem appSystem_package {entries : List (FileName × FileTree)} {a : Archive}
    (hignore : FileTree.entryOf? [46, 100, 111, 99, 107, 101, 114, 105, 103, 110, 111, 114, 101] entries = none)
    (hpack : Archive.ofTree (.dir entries) ⟨"/app"⟩ [] [] = a) :
    package (appSystem entries) ⟨"/app/Dockerfile"⟩ bareSpec false = .ok ⟨[], some "Dockerfile", false, a⟩ := by
  have hrelative : (⟨"/app/Dockerfile"⟩ : Path).relativeTo? ⟨"/app"⟩ = some "Dockerfile" := by decide
  have hlocation : Ignore.location ⟨"/app"⟩ none = ⟨"/app/.dockerignore"⟩ := by decide
  have hfind : (appSystem entries).find ⟨"/app/.dockerignore"⟩ = .error (.os .notFound) := by
    rw [FileSystem.find_of_pieces [[], [97, 112, 112],
        [46, 100, 111, 99, 107, 101, 114, 105, 103, 110, 111, 114, 101]]
      (by decide) (by decide) (by decide)]
    have happ : FileTree.entryOf? [97, 112, 112] [([97, 112, 112], .dir entries)] = some (.dir entries) := rfl
    simp [FileSystem.resolveFrom, appSystem, FileTree.at?, FileTree.child?, happ, hignore, FileSystem.dot,
      FileSystem.nameLimit, Except.mapError, Except.bind]
  have htext : (appSystem entries).readText ⟨"/app/.dockerignore"⟩ = .error (.os .notFound) := by
    rw [FileSystem.readText, FileSystem.read, hfind]
    rfl
  have hload := Ignore.Rules.load_of_notFound (some "Dockerfile") rfl (hlocation ▸ htext)
  refine package_eq_ok_iff.2 ⟨[], [], ?_, ?_, ?_⟩
  · rw [bareSpec, hrelative]
    rfl
  · rw [bareSpec, hrelative]
    exact hload
  · rw [bareSpec, hrelative, Archive.pack, appSystem_find_app]
    simp only [hpack]
    rfl

/-- Of an empty tree the end of an archive is sent, and of a tree with a socket nothing but the fault. -/
theorem package_sends_whole_appSystem :
    (∃ (c : Context) (chunks : List (List UInt8)),
      package (appSystem []) ⟨"/app/Dockerfile"⟩ bareSpec false = .ok c ∧
      (∀ e, .error e ∉ c.sends zeros asIs) ∧ c.sends zeros asIs = chunks.map .ok ∧
      c.decoded asIs chunks.flatten = some (List.replicate 1024 0) ∧
      c.IsWhole (appSystem []) ⟨"/app/Dockerfile"⟩ bareSpec) ∧
    ∃ c, package (appSystem [sock]) ⟨"/app/Dockerfile"⟩ bareSpec false = .ok c ∧
      c.sends zeros asIs = [.error (.socketEntry "/app/z.sock")] := by
  obtain ⟨-, hsends⟩ := package_sends_whole
  constructor
  · have hpack : Archive.ofTree (.dir []) ⟨"/app"⟩ [] [] = ⟨[], none⟩ := by cbv
    have h := appSystem_package rfl hpack
    obtain ⟨chunks, hchunks, -, -, hunbroken, hwhole⟩ := hsends _ _ _ _ _ h zeros asIs
    have hnone := (forall_notMem_sends_iff (c := ⟨[], some "Dockerfile", false, ⟨[], none⟩⟩) zeros asIs).2 rfl
    obtain ⟨-, hdecoded⟩ := hunbroken hnone
    rw [flatten_zeros] at hdecoded
    exact ⟨_, chunks, h, hnone, hchunks.trans (List.append_nil _), hdecoded, hwhole.1 hnone⟩
  · have hpack : Archive.ofTree (.dir [sock]) ⟨"/app"⟩ [] [] = ⟨[], some (.socketEntry "/app/z.sock")⟩ := by cbv
    have h := appSystem_package rfl hpack
    obtain ⟨chunks, hchunks, -, hbroken, -⟩ := hsends _ _ _ _ _ h zeros asIs
    obtain ⟨hfront, hfull⟩ := hbroken _ ((mem_sends_iff zeros asIs).2 rfl)
    rw [writes, if_neg Bool.false_ne_true, flatten_zeros] at hfront
    have hnil : chunks = [] := by
      refine List.eq_nil_iff_forall_not_mem.2 fun chunk hchunk => ?_
      have hlong := hfull chunk hchunk
      have hshort := (List.sublist_flatten_of_mem hchunk).length_le.trans hfront.length_le
      rw [List.length_replicate] at hshort
      exact absurd (hlong.trans hshort) (by decide)
    rw [hnil] at hchunks
    exact ⟨_, h, hchunks⟩

end ImageBuild.Context
