import UnionFS.Proofs.Export.Confinement
import UnionFS.Proofs.Network.Serving

/-!
# Requests in pieces do not show

Over a whole stream a file is read and written as if it were done at once, however small the pieces
are.  What carries the proofs is what has been done so far: the data read are the slice of their
length (`run_readOn`), and what is left to write goes right behind what has been written
(`run_writeOn`).
-/

namespace UnionFS

open Client

namespace Export

/-- A file with this content, that a path within the export leads to and that may be used so. -/
def OpensFile (e : Export) (t : Tree) (path : String) (mask : UInt32) (q : Path)
    (content : Bytes) : Prop :=
  ∃ n, e.Opens t path mask q n ∧ n.content = .file content

variable {e : Export} {t : Tree} {path : String} {mask : UInt32} {q : Path} {content : Bytes}

/-- Writing to a file changes neither the way to it nor the rights on it. -/
theorem OpensFile.overlay (h : e.OpensFile t path mask q content) (offset : Nat) (data : Bytes) :
    e.OpensFile (t.modify q (·.overlay offset data)) path mask q (content.overlay offset data) := by
  obtain ⟨n, hopens, hfile⟩ := h
  have hsame : t.SameOutline (t.modify q (·.overlay offset data)) :=
    (Tree.SameOutline.modify (.refl _) q offset data).symm
  obtain ⟨m, hopens', -⟩ := hopens.congr hsame
  have hfound := hopens'.found
  rw [Tree.lookup_modify, if_pos rfl, hopens.found] at hfound
  obtain rfl : n.overlay offset data = m := Option.some.inj hfound
  exact ⟨_, hopens', by rw [Node.overlay, hfile]⟩

/-- A piece of a file is read. -/
theorem OpensFile.read (h : e.OpensFile t path Access.read q content) {size offset : UInt64}
    (hsize : size ≤ e.maxIo) (hoffset : offset.toNat < offsetLimit) :
    e.read t path size offset = .ok (content.slice offset.toNat size.toNat) := by
  obtain ⟨n, hopens, hfile⟩ := h
  have hdir : n.isDirectory = false := by rw [Node.isDirectory, hfile]
  have hdata : n.data = content := by rw [Node.data, hfile]
  refine read_eq_ok.mpr ⟨hsize, hoffset, q, n, hopens, hdir, ?_⟩
  rw [hdata]

/-- A piece of a file is written. -/
theorem OpensFile.write (h : e.OpensFile t path Access.write q content) {data : Bytes}
    {offset : UInt64} (hsize : UInt64.ofNat data.length ≤ e.maxIo)
    (hoffset : offset.toNat < offsetLimit) :
    e.write t path data offset =
      (.ok (UInt64.ofNat data.length), t.modify q (·.overlay offset.toNat data)) := by
  obtain ⟨n, hopens, hfile⟩ := h
  have hdir : n.isDirectory = false := by rw [Node.isDirectory, hfile]
  have hopened : e.openForWrite t path (UInt64.ofNat data.length) = .ok q :=
    openForWrite_eq_ok.mpr ⟨hsize, n, hopens, hdir⟩
  rw [Export.write, hopened]
  exact writeAt_eq_ok.mpr ⟨hoffset, rfl, rfl⟩

theorem confine_sample : sample.confine sampleTree "/f" = .ok [[100], [102]] := by
  refine confine_eq_ok_iff.mpr ⟨by decide, ⟨by decide, 0, Nat.zero_le _, ?_⟩, by decide⟩
  show sampleTree.Leads [] [[100], Name.dot, [102]] 0 [[100], [102]]
  have hroot : sampleTree.Enters [] [100] { content := .directory, permissions := 0o755 } :=
    ⟨⟨by decide, by decide, by decide⟩, by decide, by decide, by decide⟩
  have hfile : sampleTree.Enters [[100]] [102]
      { content := .file [1, 2, 3], permissions := 0o644 } :=
    ⟨⟨by decide, by decide, by decide⟩, by decide, by decide, by decide⟩
  exact .directory hroot rfl (.stay (by decide) (.file hfile rfl))

theorem opensFile_sample {mask : UInt32} (h : mask = Access.read ∨ mask = Access.write) :
    sample.OpensFile sampleTree "/f" mask [[100], [102]] [1, 2, 3] := by
  rcases h with rfl | rfl
  all_goals
    exact ⟨{ content := .file [1, 2, 3], permissions := 0o644 },
      ⟨confine_sample, by decide, by decide, by decide⟩, rfl⟩

end Export

namespace Client.Connection

variable {c : Connection Nat} {n : Network} {e : Export} {t : Tree} {path : String} {q : Path}
  {content data : Bytes} {patience : UInt64}

/-- The path is short enough for both ends, and a piece is no more than the server takes. -/
structure Suits (c : Connection Nat) (e : Export) (path : String) : Prop where
  sent : (Utf8.encode path).length ≤ c.config.maxPath.toNat
  taken : (Utf8.encode path).length ≤ e.maxPath.toNat
  positive : 0 < c.config.maxIo
  pieces : c.config.maxIo ≤ e.maxIo

/-- A client that takes two bytes at once. -/
def sampleConnection : Connection Nat :=
  { peer := ⟨"alpha", 2678, "key"⟩, config := { keyDir := "", maxIo := 2 }
    line := some 0, connected := true }

/-- A stream to a session that waits for a command. -/
def sampleNetwork : Network :=
  let session : Session := { gate := ⟨[], [], {}⟩, phase := .idle Export.sample, deadline := 0 }
  { tree := Export.sampleTree, lines := [{ address := "", far := .session session }] }

theorem joins_sample : sampleConnection.Joins sampleNetwork Export.sample Export.sampleTree := by
  refine ⟨rfl, 0, rfl, { gate := ⟨[], [], {}⟩, phase := .idle Export.sample, deadline := 0 }, ?_, ?_⟩
  · exact ⟨⟨_, rfl, rfl, rfl⟩, rfl⟩
  · exact ⟨rfl, rfl, rfl⟩

theorem suits_sample : sampleConnection.Suits Export.sample "/f" :=
  ⟨by decide, by decide, by decide, by decide⟩

/-! ## Reading -/

/-- The data are the beginning of what is read from an offset on. -/
structure ReadSoFar (content : Bytes) (size offset : Nat) (data : Bytes) : Prop where
  slice : data = content.slice offset data.length
  size : data.length ≤ size

namespace ReadSoFar

variable {size offset want limit : Nat}

theorem nil : ReadSoFar content size offset [] := ⟨rfl, Nat.zero_le size⟩

/-- What has been read lies within the file. -/
theorem position_lt (h : ReadSoFar content size offset data)
    (hcontent : content.length < Export.offsetLimit) (hoffset : offset < Export.offsetLimit) :
    offset + data.length < Export.offsetLimit := by
  have hlen := congrArg List.length h.slice
  rw [Bytes.length_slice] at hlen
  omega

theorem append_slice (h : ReadSoFar content size offset data) (want : Nat) :
    data ++ content.slice (offset + data.length) want =
      content.slice offset (data.length + want) := by
  have hparts := content.slice_append_slice offset data.length want
  rwa [← h.slice] at hparts

/-- With the next piece, it is the beginning still. -/
theorem append (h : ReadSoFar content size offset data) (hwant : data.length + want ≤ size) :
    ReadSoFar content size offset (data ++ content.slice (offset + data.length) want) := by
  refine ⟨?_, ?_⟩
  · rw [h.append_slice, Bytes.slice_length]
  · rw [h.append_slice, Bytes.length_slice]
    omega

/-- Where no further piece is asked for, all has been read. -/
theorem append_of_last (h : ReadSoFar content size offset data) (hlimit : 0 < limit)
    (hwant : want = min (size - data.length) limit)
    (hlast : (content.slice (offset + data.length) want).length < want
      ∨ size ≤ (data ++ content.slice (offset + data.length) want).length
      ∨ content.slice (offset + data.length) want = []) :
    data ++ content.slice (offset + data.length) want = content.slice offset size := by
  have hsize := h.size
  have hlen := congrArg List.length (h.append_slice want)
  have hle : (content.slice (offset + data.length) want).length ≤ want := List.length_take_le _ _
  rw [h.append_slice] at hlast ⊢
  by_cases hall : data.length + want = size
  · rw [hall]
  · -- more was left than one piece, so that it was the file that ended
    rw [List.length_append] at hlen
    refine Bytes.slice_eq_of_short (by omega) ?_
    rcases hlast with hshort | hfull | hnone
    · omega
    · omega
    · rw [hnone, List.length_nil] at hlen
      omega

end ReadSoFar

/-- One piece of a file is read. -/
theorem Joins.run_read_piece (h : c.Joins n e t) (hs : c.Suits e path)
    (hfile : e.OpensFile t path Access.read q content)
    (hcontent : content.length < Export.offsetLimit) {want position : Nat}
    (hwant : want ≤ c.config.maxIo.toNat) (hposition : position < Export.offsetLimit)
    (patience : UInt64) :
    ∃ n' : Network, (∀ next, (Plan.ask (.read path (UInt64.ofNat want) (UInt64.ofNat position)) next :
          Exchanges (Outcome Bytes)).run (single (Network.carrier patience) c.config.limits) c n =
        (next (.ok (content.slice position want))).run
          (single (Network.carrier patience) c.config.limits) c n')
      ∧ c.Joins n' e t := by
  have hat : (UInt64.ofNat position).toNat = position :=
    UInt64.toNat_ofNat_of_lt' (Nat.lt_trans hposition (by decide))
  have hsize : (UInt64.ofNat want).toNat = want :=
    UInt64.toNat_ofNat_of_lt' (Nat.lt_of_le_of_lt hwant c.config.maxIo.toNat_lt)
  have hmax : UInt64.ofNat want ≤ e.maxIo := by
    rw [UInt64.le_iff_toNat_le, hsize]
    exact Nat.le_trans hwant (UInt64.le_iff_toNat_le.mp hs.pieces)
  have hread : e.perform t (.read path (UInt64.ofNat want) (UInt64.ofNat position)) =
      (.ok (content.slice position want), t) := by
    rw [Export.perform, hfile.read hmax (by rwa [hat]), hat, hsize]
  have hfits : e.Fits c.config.limits t
      (.read path (UInt64.ofNat want) (UInt64.ofNat position)) := by
    refine ⟨hs.taken, ?_, Nat.pow_pos (by decide)⟩
    rw [hread]
    show (content.slice position want).length < blockLimit
    rw [Bytes.length_slice]
    exact Nat.lt_of_le_of_lt (by omega) hcontent
  have hasked := h.run_ask (α := Outcome Bytes) hfits patience
  rwa [hread] at hasked

/-- From wherever the reading stands, it goes on to the end. -/
theorem run_readOn (h : c.Joins n e t) (hs : c.Suits e path)
    (hfile : e.OpensFile t path Access.read q content)
    (hcontent : content.length < Export.offsetLimit) {size offset : Nat}
    (hoffset : offset < Export.offsetLimit) (hdata : ReadSoFar content size offset data) :
    ∃ n' : Network, (readOn path size offset c.config.maxIo.toNat data).run
        (single (Network.carrier patience) c.config.limits) c n =
        ((.ok (content.slice offset size), c), n')
      ∧ c.Joins n' e t := by
  fun_induction readOn path size offset c.config.maxIo.toNat data generalizing n
  case case1 data position hend =>
      have hposition := hdata.position_lt hcontent hoffset
      exact absurd hend (Nat.not_le.mpr (Nat.lt_trans hposition (by decide)))
  case case2 data want position hend ih =>
      have hsize := hdata.size
      have hposition : position < Export.offsetLimit := hdata.position_lt hcontent hoffset
      obtain ⟨n₁, hn₁, h₁⟩ := h.run_read_piece hs hfile hcontent
        (Nat.min_le_right (size - data.length) _) hposition patience
      rw [hn₁]
      dsimp only
      split
      · next hlast =>
        have hlimit := UInt64.lt_iff_toNat_lt.mp hs.positive
        rw [hdata.append_of_last hlimit rfl hlast]
        exact ⟨n₁, rfl, h₁⟩
      · next hgoes => exact ih _ hgoes h₁ (hdata.append (by omega))

/-- **Reading in pieces gives what reading at once would give**, from a file that the account may
read, whatever the size and wherever the reading starts. -/
theorem request_read_eq (h : c.Joins n e t) (hs : c.Suits e path)
    (hfile : e.OpensFile t path Access.read q content)
    (hcontent : content.length < Export.offsetLimit) (size : UInt64) {offset : UInt64}
    (hoffset : offset.toNat < Export.offsetLimit) :
    ∃ n' : Network, c.request (Network.carrier patience) (.read path size offset) n =
        ((.ok (content.slice offset.toNat size.toNat), c), n')
      ∧ c.Joins n' e t := by
  have hshort : (Utf8.encode (Request.read path size offset).path).length ≤
      c.config.maxPath.toNat := hs.sent
  rw [request_of_short _ hshort]
  exact run_readOn h hs hfile hcontent hoffset .nil

theorem request_read_eq_sample :
    ∃ n' : Network, sampleConnection.request (Network.carrier 1000) (.read "/f" 9 0) sampleNetwork =
        ((.ok [1, 2, 3], sampleConnection), n')
      ∧ sampleConnection.Joins n' Export.sample Export.sampleTree :=
  request_read_eq joins_sample suits_sample (Export.opensFile_sample (.inl rfl)) (by decide) 9
    (by decide)

/-! ## Writing -/

/-- What is left to write goes right behind what has been written. -/
theorem modify_overlay_rest (t : Tree) (q : Path) (data : Bytes) (offset limit written : Nat) :
    (let chunk := (data.drop written).take limit
     (t.modify q (·.overlay (offset + written) chunk)).modify q
      (·.overlay (offset + (written + chunk.length)) (data.drop (written + chunk.length)))) =
    t.modify q (·.overlay (offset + written) (data.drop written)) := by
  have hparts := List.prefix_iff_eq_append.mp (List.take_prefix limit (data.drop written))
  rw [List.drop_drop] at hparts
  dsimp only
  rw [Tree.modify_modify]
  refine congrArg (t.modify q) (funext fun node => ?_)
  rw [← Nat.add_assoc, Node.overlay_overlay, hparts]

/-- One piece of a file is written. -/
theorem Joins.run_write_piece {chunk : Bytes} (h : c.Joins n e t) (hs : c.Suits e path)
    (hfile : e.OpensFile t path Access.write q content) {position : Nat}
    (hchunk : chunk.length ≤ c.config.maxIo.toNat)
    (hend : position + chunk.length < Export.offsetLimit) (patience : UInt64) :
    ∃ n' : Network, (∀ next, (Plan.ask (.write path chunk (UInt64.ofNat position)) next :
          Exchanges (Outcome UInt64)).run (single (Network.carrier patience) c.config.limits) c n =
        (next (.ok (UInt64.ofNat chunk.length))).run
          (single (Network.carrier patience) c.config.limits) c n')
      ∧ c.Joins n' e (t.modify q (·.overlay position chunk)) := by
  have hposition : position < Export.offsetLimit := by omega
  have hat : (UInt64.ofNat position).toNat = position :=
    UInt64.toNat_ofNat_of_lt' (Nat.lt_trans hposition (by decide))
  have hcount : (UInt64.ofNat chunk.length).toNat = chunk.length :=
    Wire.toNat_ofNat_length (Nat.lt_of_le_of_lt hchunk c.config.maxIo.toNat_lt)
  have hmax : UInt64.ofNat chunk.length ≤ e.maxIo := by
    rw [UInt64.le_iff_toNat_le, hcount]
    exact Nat.le_trans hchunk (UInt64.le_iff_toNat_le.mp hs.pieces)
  have hwrite : e.perform t (.write path chunk (UInt64.ofNat position)) =
      (.ok (UInt64.ofNat chunk.length), t.modify q (·.overlay position chunk)) := by
    rw [Export.perform, hfile.write hmax (by rwa [hat]), hat]
  have hfits : e.Fits c.config.limits t (.write path chunk (UInt64.ofNat position)) := by
    refine ⟨hs.taken, ?_, ?_⟩
    · rw [hwrite]
      trivial
    · show chunk.length < blockLimit
      exact Nat.lt_of_le_of_lt (Nat.le_add_left _ position) hend
  have hasked := h.run_ask (α := Outcome UInt64) hfits patience
  rwa [hwrite] at hasked

/-- From wherever the writing stands, it goes on to the end. -/
theorem run_writeOn (h : c.Joins n e t) (hs : c.Suits e path)
    (hfile : e.OpensFile t path Access.write q content) {offset written : Nat}
    (hend : offset + data.length < Export.offsetLimit) (hwritten : written ≤ data.length)
    (patience : UInt64) :
    ∃ n' : Network, (writeOn path data offset c.config.maxIo.toNat written).run
        (single (Network.carrier patience) c.config.limits) c n =
        ((.ok (UInt64.ofNat data.length), c), n')
      ∧ c.Joins n' e (t.modify q (·.overlay (offset + written) (data.drop written))) := by
  fun_induction writeOn path data offset c.config.maxIo.toNat written generalizing n t content
  case case1 written position hpast =>
      have hposition : position < Export.offsetLimit := by omega
      exact absurd hpast (Nat.not_le.mpr (Nat.lt_trans hposition (by decide)))
  case case2 written chunk position hpast ih =>
      have hchunk : chunk.length = min c.config.maxIo.toNat (data.length - written) := by
        rw [List.length_take, List.length_drop]
      have hpiece : chunk.length ≤ c.config.maxIo.toNat := by omega
      have hwithin : position + chunk.length < Export.offsetLimit := by omega
      obtain ⟨n₁, hn₁, h₁⟩ := h.run_write_piece hs hfile hpiece hwithin patience
      have hcount : min (UInt64.ofNat chunk.length).toNat chunk.length = chunk.length := by
        rw [Wire.toNat_ofNat_length (Nat.lt_of_le_of_lt hpiece c.config.maxIo.toNat_lt),
          Nat.min_self]
      rw [hn₁]
      dsimp only
      split
      · next hlast =>
        -- the piece is all that was left
        rw [hcount] at hlast ⊢
        have hlimit := UInt64.lt_iff_toNat_lt.mp hs.positive
        have hall : written + chunk.length = data.length := by omega
        have hrest : chunk = data.drop written := by
          refine List.take_of_length_le ?_
          rw [List.length_drop]
          omega
        rw [hall, ← hrest]
        exact ⟨n₁, rfl, h₁⟩
      · next hgoes =>
        have hlater := ih _ hgoes h₁ (hfile.overlay position chunk) (by omega)
        rw [hcount, modify_overlay_rest] at hlater
        rw [hcount]
        exact hlater

/-- **Writing in pieces does what writing at once would do** to a file that the account may write,
and to no other. -/
theorem request_write_eq (h : c.Joins n e t) (hs : c.Suits e path)
    (hfile : e.OpensFile t path Access.write q content) {offset : UInt64}
    (hend : offset.toNat + data.length < Export.offsetLimit) :
    ∃ (n' : Network) (t' : Tree), c.request (Network.carrier patience) (.write path data offset) n =
        ((.ok (UInt64.ofNat data.length), c), n')
      ∧ c.Joins n' e t'
      ∧ (t'.lookup q).map Node.content = some (.file (content.overlay offset.toNat data))
      ∧ ∀ p, p ≠ q → t'.lookup p = t.lookup p := by
  obtain ⟨n', hn', h'⟩ := run_writeOn h hs hfile hend (Nat.zero_le _) patience
  rw [Nat.add_zero, List.drop_zero] at h'
  refine ⟨n', _, ?_, h', ?_, fun p hp => ?_⟩
  · have hshort : (Utf8.encode (Request.write path data offset).path).length ≤
        c.config.maxPath.toNat := hs.sent
    rw [request_of_short _ hshort]
    exact hn'
  · obtain ⟨node, hopens, hcontent⟩ := hfile.overlay offset.toNat data
    rw [hopens.found, Option.map_some, hcontent]
  · rw [Tree.lookup_modify, if_neg hp]

/-- Three bytes behind the end of the file, in two pieces. -/
theorem request_write_eq_sample :
    ∃ (n' : Network) (t' : Tree),
      sampleConnection.request (Network.carrier 1000) (.write "/f" [7, 8, 9] 4) sampleNetwork =
        ((.ok 3, sampleConnection), n')
      ∧ sampleConnection.Joins n' Export.sample t'
      ∧ (t'.lookup [[100], [102]]).map Node.content = some (.file [1, 2, 3, 0, 7, 8, 9])
      ∧ ∀ p, p ≠ [[100], [102]] → t'.lookup p = Export.sampleTree.lookup p :=
  request_write_eq joins_sample suits_sample (Export.opensFile_sample (.inr rfl)) (by decide)

end Client.Connection
end UnionFS
