import UnionFS.Cli.Command
import UnionFS.Proofs.Union.Runs

/-!
# Overwriting a file

A file is overwritten from its start by one write, on the server that opened it, and nothing cuts
off what it holds beyond that.  On servers that hold files (`Filing`) this leaves no mixture that is
not reported: a file that is longer than the data is not touched, of a write that was taken in part
it is told how much of it was taken (`Overwritten`), and after a failure every file is as it was.
Putting a file therefore says nothing only when all of the data are there (`overwriting`).
-/

namespace UnionFS

/-- The content of files, by server and path. -/
abbrev Files := String → String → Option Bytes

namespace Files

/-- The files with other content in one of them. -/
def put (files : Files) (server path : String) (content : Bytes) : Files :=
  fun x y => if x = server ∧ y = path then some content else files x y

theorem put_self (files : Files) (server path : String) (content : Bytes) :
    files.put server path content server path = some content :=
  if_pos ⟨rfl, rfl⟩

theorem put_of_ne (files : Files) {server path x y : String} (content : Bytes)
    (h : ¬ (x = server ∧ y = path)) : files.put server path content x y = files x y :=
  if_neg h

/-- A file was written to: it held the one and now holds the other.  So do other names of it, and
nothing else has changed. -/
structure Stored (files files' : Files) (server path : String) (old content : Bytes) : Prop where
  before : files server path = some old
  after : files' server path = some content
  elsewhere : ∀ x, x ≠ server → files' x = files x
  names : ∀ y, files' server y = files server y
    ∨ files server y = some old ∧ files' server y = some content

theorem stored_put {files : Files} {server path : String} {old : Bytes}
    (h : files server path = some old) (content : Bytes) :
    files.Stored (files.put server path content) server path old content where
  before := h
  after := files.put_self server path content
  elsewhere x hne := funext fun _ => files.put_of_ne content fun hx => hne hx.1
  names y := by
    by_cases hy : y = path
    · rw [hy]
      exact .inr ⟨h, files.put_self server path content⟩
    · exact .inl (files.put_of_ne content fun hx => hy hx.2)

/-- So many bytes of the data have been written over the start of a file that was no longer than the
data. -/
structure Overwritten (files files' : Files) (server path : String) (data : Bytes) (count : Nat) :
    Prop where
  count_le : count ≤ data.length
  stored : ∃ old, old.length ≤ data.length
    ∧ files.Stored files' server path old (data.take count ++ old.drop count)

/-- Once all the data are written they are all that there is. -/
theorem Overwritten.whole {files files' : Files} {server path : String} {data : Bytes} {count : Nat}
    (h : files.Overwritten files' server path data count) (hcount : data.length ≤ count) :
    ∃ old, files.Stored files' server path old data := by
  obtain ⟨old, hlength, hstored⟩ := h.stored
  -- the old content is no longer than what was written, and nothing of it is left
  rw [List.take_of_length_le hcount, List.drop_of_length_le (Nat.le_trans hlength hcount),
    List.append_nil] at hstored
  exact ⟨old, hstored⟩

end Files

namespace Inquiry

/-- Something is to be written. -/
def IsWrite : Inquiry → Prop
  | request _ (.write _ _ _) => True
  | _ => False

end Inquiry

/-- Servers that hold files: only writing changes one; the size that is told of a file is that of its
content; and a write that is refused changes nothing, while one that is not stores as many bytes as
it says. -/
structure Filing {S : Type} (answer : (q : Inquiry) → S → q.Answer × S) (files : S → Files) :
    Prop where
  keeps : ∀ q s, ¬ q.IsWrite → files (answer q s).2 = files s
  tells : ∀ server path s stat old, (answer (.request server (.getattr path)) s).1 = .ok stat →
    files s server path = some old → stat.size.toNat = old.length
  refuses : ∀ server path data offset s code,
    (answer (.request server (.write path data offset)) s).1 = .error code →
      files (answer (.request server (.write path data offset)) s).2 = files s
  stores : ∀ server path data offset s count,
    (answer (.request server (.write path data offset)) s).1 = .ok count →
      count.toNat ≤ data.length ∧ ∃ old content,
        (files s).Stored (files (answer (.request server (.write path data offset)) s).2)
            server path old content
          ∧ (offset.toNat ≤ old.length →
            content = old.overlay offset.toNat (data.take count.toNat))

namespace Union

variable {u : Union} {path server p : String} {flags : UInt32} {data : Bytes}
  {exchanges : List Exchange} {opened : Outcome FileHandle} {handle : FileHandle}

/-- Opening a file writes nothing. -/
theorem not_isWrite_of_goes_openFile (h : (u.openFile path flags).Goes exchanges opened) :
    ∀ x ∈ exchanges, ¬ x.1.IsWrite := by
  intro x hx
  by_cases htag : (Address.ofPath path).server = ""
  · obtain ⟨replies, ⟨flags', -, rfl, -⟩, -⟩ := goes_openFile_of_untagged (route_of_untagged htag) h
    -- it is asked who is connected, and those are asked to open the file
    rcases List.mem_append.mp hx with hx | hx
    · obtain ⟨flag, -, rfl⟩ := List.mem_map.mp hx
      exact id
    · obtain ⟨reply, -, rfl⟩ := List.mem_map.mp hx
      exact id
  · by_cases hmem : (Address.ofPath path).server ∈ u.servers
    · obtain ⟨answer, rfl, -⟩ := goes_openFile_of_tagged (route_of_mem htag hmem) h
      rw [List.mem_singleton.mp hx]
      exact id
    · rw [(goes_openFile_of_unknown (route_of_not_mem htag hmem) h).1] at hx
      cases hx

/-- Putting a file is overwriting it, and is reported without trouble only if all was written. -/
theorem goes_put {report : Cli.Report} (h : (Cli.put u path data).Goes exchanges report) :
    ∃ o, (u.replace path data).Goes exchanges o
      ∧ (report.trouble = none → ∃ server count, o = .ok (server, count)
        ∧ data.length ≤ count.toNat) := by
  rw [Cli.put] at h
  obtain ⟨o, hgoes, rfl⟩ := Plan.goes_map_iff.mp h
  refine ⟨o, hgoes, fun hnone => ?_⟩
  cases o with
  | error code => cases hnone
  | ok x =>
      obtain ⟨server, count⟩ := x
      refine ⟨server, count, rfl, Nat.not_lt.mp fun hshort => ?_⟩
      -- a short write is trouble
      rw [Cli.reportOn] at hnone
      dsimp only at hnone
      rw [if_pos hshort] at hnone
      cases hnone

end Union

namespace Filing

variable {S : Type} {answer : (q : Inquiry) → S → q.Answer × S} {files : S → Files} {s s' : S}
  {exchanges : List Exchange} {server p : String} {data : Bytes}
  {o : Outcome (String × UInt64)} {count : UInt64} {code : Code}

/-- As long as nothing is written no file changes. -/
theorem keeps_answers (h : Filing answer files) (hanswers : Plan.Answers answer exchanges s s')
    (hkept : ∀ x ∈ exchanges, ¬ x.1.IsWrite) : files s' = files s := by
  induction hanswers with
  | nil => rfl
  | @cons x rest s s' _ _ ih =>
      rw [ih fun y hy => hkept y (List.mem_cons_of_mem x hy),
        h.keeps x.1 s (hkept x List.mem_cons_self)]

/-- **What overwriting a file on one server does.** -/
theorem files_of_overwrites (h : Filing answer files)
    (hover : Union.Overwrites server p data exchanges o)
    (hanswers : Plan.Answers answer exchanges s s') :
    match o with
    | .error _ => files s' = files s
    | .ok (name, count) =>
      name = server ∧ (files s).Overwritten (files s') server p data count.toNat := by
  have hread : ¬ (Inquiry.request server (.getattr p)).IsWrite := id
  cases hover with
  | lost =>
      obtain ⟨-, rfl⟩ := Plan.answers_singleton_iff.mp hanswers
      exact h.keeps _ s hread
  | longer =>
      obtain ⟨-, rfl⟩ := Plan.answers_singleton_iff.mp hanswers
      exact h.keeps _ s hread
  | refused hfits =>
      obtain ⟨-, hrest⟩ := Plan.answers_cons_iff.mp hanswers
      obtain ⟨hrefused, rfl⟩ := Plan.answers_singleton_iff.mp hrest
      exact (h.refuses _ _ _ _ _ _ hrefused).trans (h.keeps _ s hread)
  | @written stat count hfits =>
      obtain ⟨hstat, hrest⟩ := Plan.answers_cons_iff.mp hanswers
      obtain ⟨hwritten, rfl⟩ := Plan.answers_singleton_iff.mp hrest
      obtain ⟨hcount, old, content, hstored, hcontent⟩ := h.stores _ _ _ _ _ _ hwritten
      rw [h.keeps _ s hread] at hstored
      have hsize : stat.size.toNat = old.length := h.tells _ _ _ _ _ hstat hstored.before
      -- the write starts where the file does
      have hover : content = data.take count.toNat ++ old.drop count.toNat := by
        rw [hcontent (Nat.zero_le _), show (0 : UInt64).toNat = 0 from rfl, Bytes.overlay_zero,
          List.length_take_of_le hcount]
      exact ⟨rfl, hcount, old, hsize ▸ hfits, hover ▸ hstored⟩

variable {u : Union} {path : String}

/-- **What overwriting a file does**, on whichever server it is opened. -/
theorem files_of_goes_replace (h : Filing answer files)
    (hgoes : (u.replace path data).Goes exchanges o)
    (hanswers : Plan.Answers answer exchanges s s') :
    match o with
    | .error _ => files s' = files s
    | .ok (server, count) => server ∈ u.servers
      ∧ ((u.openFile path OpenFlags.writeOnly).outcome answer s).1 = .ok ⟨server⟩
      ∧ ⟨.request server (.openFile (Address.ofPath path).path OpenFlags.writeOnly), .ok ()⟩ ∈
        exchanges
      ∧ (files s).Overwritten (files s') server (Address.ofPath path).path data count.toNat := by
  obtain ⟨first, opened, rest, rfl, hopened, hrest⟩ := Union.goes_replace hgoes
  obtain ⟨between, hfirst, hanswers⟩ := Plan.answers_append_iff.mp hanswers
  have hkept := h.keeps_answers hfirst (Union.not_isWrite_of_goes_openFile hopened)
  cases opened with
  | error code =>
      obtain ⟨rfl, rfl⟩ := hrest
      cases hanswers
      exact hkept
  | ok handle =>
      -- all is as it was before the file was opened
      have hfiles := h.files_of_overwrites hrest hanswers
      obtain ⟨hmem, haccepted⟩ := Union.accepted_of_goes_openFile hopened
      rw [hkept] at hfiles
      cases o with
      | error code => exact hfiles
      | ok x =>
          obtain ⟨server, count⟩ := x
          obtain ⟨rfl, hover⟩ := hfiles
          refine ⟨hmem, ?_, List.mem_append_left _ haccepted, hover⟩
          rw [Plan.outcome_of_goes hopened hfirst]

end Filing

/-- What overwriting a file comes to on servers that hold files. -/
structure Overwriting {S : Type} (u : Union) (answer : (q : Inquiry) → S → q.Answer × S)
    (files : S → Files) (s : S) (path : String) (data : Bytes) : Prop where
  /-- What is reported as written was written to the server that opened the file, which has itself
  accepted to open it. -/
  done : ∀ server count, ((u.replace path data).outcome answer s).1 = .ok (server, count) →
    server ∈ u.servers
      ∧ ((u.openFile path OpenFlags.writeOnly).outcome answer s).1 = .ok ⟨server⟩
      ∧ ⟨.request server (.openFile (Address.ofPath path).path OpenFlags.writeOnly), .ok ()⟩ ∈
        (u.replace path data).transcript answer s
      ∧ (files s).Overwritten (files ((u.replace path data).outcome answer s).2) server
        (Address.ofPath path).path data count.toNat
      ∧ (count.toNat = data.length →
        files ((u.replace path data).outcome answer s).2 server (Address.ofPath path).path =
          some data)
  /-- If it failed, wherever it did, no file has changed. -/
  failed : ∀ code, ((u.replace path data).outcome answer s).1 = .error code →
    files ((u.replace path data).outcome answer s).2 = files s
  /-- Putting a file is reported without trouble only if it is there as a whole. -/
  put : ((Cli.put u path data).outcome answer s).1.trouble = none →
    ∃ server ∈ u.servers,
      ((u.openFile path OpenFlags.writeOnly).outcome answer s).1 = .ok ⟨server⟩
      ∧ ⟨.request server (.openFile (Address.ofPath path).path OpenFlags.writeOnly), .ok ()⟩ ∈
        (Cli.put u path data).transcript answer s
      ∧ ∃ old, (files s).Stored (files ((Cli.put u path data).outcome answer s).2) server
        (Address.ofPath path).path old data

namespace Filing

variable {S : Type} {answer : (q : Inquiry) → S → q.Answer × S} {files : S → Files}

/-- **A file is overwritten as a whole or reported as it is, and no other file is touched.** -/
theorem overwriting (h : Filing answer files) (u : Union) (s : S) (path : String) (data : Bytes) :
    Overwriting u answer files s path data where
  done server count hok := by
    have hgoes := Plan.goes_transcript answer (u.replace path data) s
    rw [hok] at hgoes
    obtain ⟨hmem, hopened, haccepted, hover⟩ := h.files_of_goes_replace hgoes
      (Plan.answers_transcript answer (u.replace path data) s)
    refine ⟨hmem, hopened, haccepted, hover, fun hcount => ?_⟩
    obtain ⟨old, hstored⟩ := hover.whole (Nat.le_of_eq hcount.symm)
    exact hstored.after
  failed code herror := by
    have hgoes := Plan.goes_transcript answer (u.replace path data) s
    rw [herror] at hgoes
    have hfiles := h.files_of_goes_replace hgoes
      (Plan.answers_transcript answer (u.replace path data) s)
    exact hfiles
  put hnone := by
    obtain ⟨o, hgoes, hall⟩ :=
      Union.goes_put (Plan.goes_transcript answer (Cli.put u path data) s)
    obtain ⟨server, count, rfl, hcount⟩ := hall hnone
    obtain ⟨hmem, hopened, haccepted, hover⟩ := h.files_of_goes_replace hgoes
      (Plan.answers_transcript answer (Cli.put u path data) s)
    exact ⟨server, hmem, hopened, haccepted, hover.whole hcount⟩

/-! Servers that are nothing but their files, and take two bytes in one write. -/

def sampleAnswer : (q : Inquiry) → Files → q.Answer × Files
  | .connected _, files => (true, files)
  | .stop _, files => (true, files)
  | .request server (.getattr path), files =>
    match files server path with
    | some content =>
      if content.length < 2 ^ 64 then
        (.ok { mode := Mode.regular, size := UInt64.ofNat content.length }, files)
      else (.error .tooLarge, files)
    | none => (.error .notFound, files)
  | .request server (.openFile path _), files =>
    match files server path with
    | some _ => (.ok (), files)
    | none => (.error .notFound, files)
  | .request server (.write path data offset), files =>
    match files server path with
    | some old =>
      (.ok (UInt64.ofNat (data.take 2).length),
        files.put server path (old.overlay offset.toNat (data.take 2)))
    | none => (.error .notFound, files)
  | .request _ _, files => (.error .notSupported, files)

theorem filing_sample : Filing sampleAnswer id where
  keeps q files hkept := by
    show (sampleAnswer q files).2 = files
    cases q with
    | connected server => rfl
    | stop server => rfl
    | request server r =>
        cases r with
        | getattr path =>
            rw [sampleAnswer]
            split
            · split <;> rfl
            · rfl
        | openFile path flags =>
            rw [sampleAnswer]
            split <;> rfl
        | write path data offset => exact absurd trivial hkept
        | _ => rfl
  tells server path files stat old hstat hold := by
    rw [sampleAnswer, show files server path = some old from hold] at hstat
    dsimp only at hstat
    by_cases hlength : old.length < 2 ^ 64
    · rw [if_pos hlength] at hstat
      cases hstat
      exact UInt64.toNat_ofNat_of_lt' hlength
    · rw [if_neg hlength] at hstat
      cases hstat
  refuses server path data offset files code herror := by
    show (sampleAnswer _ files).2 = files
    rw [sampleAnswer] at herror ⊢
    cases hfile : files server path with
    | none => rfl
    | some old =>
        rw [hfile] at herror
        cases herror
  stores server path data offset files count hcount := by
    rw [sampleAnswer] at hcount ⊢
    cases hfile : files server path with
    | none =>
        rw [hfile] at hcount
        cases hcount
    | some old =>
        rw [hfile] at hcount
        cases hcount
        have hshort : (data.take 2).length ≤ 2 := List.length_take_le 2 data
        rw [UInt64.toNat_ofNat_of_lt' (show (data.take 2).length < 2 ^ 64 by omega)]
        refine ⟨List.length_take_le' 2 data, old, _, Files.stored_put hfile _, fun _ => ?_⟩
        rw [List.take_eq_take_iff.mpr (show min (data.take 2).length data.length = min 2 data.length
          by rw [List.length_take]; omega)]

def sampleFiles : Files := fun server path =>
  if path = "/f" then (if server = "alpha" then some [1, 2, 3] else some [4]) else none

theorem overwriting_sample :
    Filing sampleAnswer id
      ∧ ((Peers.sampleUnion.replace "/f" [9, 8, 7, 6]).outcome sampleAnswer sampleFiles).1 =
        .ok ("alpha", 2)
      ∧ Overwriting Peers.sampleUnion sampleAnswer id sampleFiles "/f" [9, 8, 7, 6] :=
  ⟨filing_sample, rfl, overwriting filing_sample Peers.sampleUnion sampleFiles "/f" _⟩

end Filing
end UnionFS
