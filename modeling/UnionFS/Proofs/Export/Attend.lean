import UnionFS.Client.Exchange
import UnionFS.Export.Serve
import UnionFS.Proofs.Wire.Reads

/-!
# Requests as a server hears them

What a server does with the bytes of one request, from its command on.  A request that is answered
at once has its whole response sent as soon as its opening is there (`feed_attend_of_ne_write`).  A
write is first answered by whether its file can be opened (`feed_attend_write`), and only then, once
all of its data are there, carried out (`feed_takeData`).
-/

namespace UnionFS

open Dialogue Wire Client

/-! ## Dialogues that answer -/

namespace Dialogue

variable {σ α β : Type}

theorem feed_inspect (view : σ → α) (k : α → Dialogue σ β) (input : Bytes) (s : σ) :
    (Dialogue.inspect view >>= k).feed input s = (k (view s)).feed input s := rfl

theorem feed_say (bytes input : Bytes) (s : σ) :
    (Dialogue.say bytes).feed input s = ⟨.done (), bytes, input, s⟩ := by
  show Progress.mk _ (bytes ++ []) _ _ = _
  rw [List.append_nil]
  rfl

theorem feed_say_bind (bytes : Bytes) (k : Unit → Dialogue σ β) (input : Bytes) (s : σ) :
    (Dialogue.say bytes >>= k).feed input s =
      (let p := (k ()).feed input s
       { p with sent := bytes ++ p.sent }) := rfl

theorem feed_answer (view : σ → α) (form : α → Bytes) (input : Bytes) (s : σ) :
    (do Dialogue.say (form (← .inspect view)) : Dialogue σ Unit).feed input s =
      ⟨.done (), form (view s), input, s⟩ :=
  feed_say (form (view s)) input s

theorem feed_change (change : σ → α × σ) (form : α → Bytes) (input : Bytes) (s : σ) :
    (do Dialogue.say (form (← .update change)) : Dialogue σ Unit).feed input s =
      ⟨.done (), form (change s).1, input, (change s).2⟩ :=
  feed_say (form (change s).1) input (change s).2

end Dialogue

/-! ## A request as a command and its arguments -/

namespace Request

def command : Request → Command
  | getattr _ => .getattr
  | access _ _ => .access
  | readdir _ => .readdir
  | read _ _ _ => .read
  | write _ _ _ => .write
  | openFile _ _ => .openFile

/-- What is sent after the command and the path, before the first reply. -/
def arguments : Request → Bytes
  | getattr _ | readdir _ => []
  | access _ mask | openFile _ mask => ofMask mask
  | read _ size offset => ofSize size ++ ofSize offset
  | write _ data offset => ofSize (UInt64.ofNat data.length) ++ ofSize offset

/-- The data that a request would write. -/
def data : Request → Bytes
  | write _ data _ => data
  | _ => []

theorem opening_eq (r : Request) :
    opening r = ofCommand r.command ++ (ofText r.path ++ r.arguments) := by
  cases r <;> simp [opening, command, arguments, path]

end Request

/-! ## The server's end -/

namespace Export

/-- One request from its command on. -/
def attend (e : Export) : Dialogue Tree Unit := do
  e.serve (← readCommand)

/-- The data of a request that are sent: those of a write whose file was opened. -/
def payload (e : Export) (t : Tree) : Request → Bytes
  | .write path data _ =>
    match e.openForWrite t path (UInt64.ofNat data.length) with
    | .ok _ => data
    | .error _ => []
  | _ => []

/-- All that the server sends for a request. -/
def response (e : Export) (t : Tree) : Request → Bytes
  | .getattr path => replyStat (e.getattr t path)
  | .access path mask => replyUnit (e.access t path mask)
  | .readdir path => replyEntries (e.readdir t path)
  | .read path size offset => replyData (e.read t path size offset)
  | .write path data offset =>
    match e.openForWrite t path (UInt64.ofNat data.length) with
    | .ok q => ofCode 0 ++ replySize (writeAt q offset data t).1
    | .error c => ofCode c
  | .openFile path flags => replyUnit (e.openFile t path flags)

theorem reads_path {e : Export} {path : String}
    (h : (Utf8.encode path).length ≤ e.maxPath.toNat) :
    Reads e.readPath (ofText path) (.ok path) := by
  refine (reads_size _).bind ?_
  refine ((reads_block h).bind ?_).of_eq (List.append_nil _)
  rw [Utf8.decode_encode]
  exact .done _

theorem feed_attend (e : Export) (r : Request) (more : Bytes) (t : Tree) :
    e.attend.feed (opening r ++ more) t =
      (e.serve r.command).feed (ofText r.path ++ (r.arguments ++ more)) t := by
  rw [Request.opening_eq, List.append_assoc, List.append_assoc]
  exact (reads_command r.command).feed_bind e.serve _ t

/-- **A request that is answered at once has its whole answer, and nothing else, sent.** -/
theorem feed_attend_of_ne_write {e : Export} {r : Request} (more : Bytes) (t : Tree)
    (hp : (Utf8.encode r.path).length ≤ e.maxPath.toNat)
    (hr : ∀ path data offset, r ≠ .write path data offset) :
    e.attend.feed (opening r ++ more) t = ⟨.done (), e.response t r, more, t⟩ := by
  rw [feed_attend]
  -- the arguments are read one after another, and then the answer is sent
  cases r with
  | getattr path => exact ((reads_path hp).feed_bind _ _ t).trans (feed_answer _ _ more t)
  | access path mask =>
      refine ((reads_path hp).feed_bind _ _ t).trans ?_
      exact ((reads_mask mask).feed_bind _ _ t).trans (feed_answer _ _ more t)
  | readdir path => exact ((reads_path hp).feed_bind _ _ t).trans (feed_answer _ _ more t)
  | read path size offset =>
      refine ((reads_path hp).feed_bind _ _ t).trans ?_
      rw [Request.arguments, List.append_assoc]
      refine ((reads_size size).feed_bind _ _ t).trans ?_
      exact ((reads_size offset).feed_bind _ _ t).trans (feed_answer _ _ more t)
  | write path data offset => exact absurd rfl (hr path data offset)
  | openFile path flags =>
      refine ((reads_path hp).feed_bind _ _ t).trans ?_
      exact ((reads_mask flags).feed_bind _ _ t).trans (feed_answer _ _ more t)

/-- What is left of serving a write once its file has been opened. -/
def takeData (e : Export) (q : Path) (size offset : UInt64) : Dialogue Tree Unit := do
  let data ← readBlock size e.maxIo
  .say (replySize (← .update (writeAt q offset data)))

/-- A write is first answered by whether its file can be opened. -/
theorem feed_attend_write {e : Export} {path : String} (data : Bytes) (offset : UInt64)
    (more : Bytes) (t : Tree) (hp : (Utf8.encode path).length ≤ e.maxPath.toNat) :
    e.attend.feed (opening (.write path data offset) ++ more) t =
      Dialogue.feed
        (match e.openForWrite t path (UInt64.ofNat data.length) with
        | .error c => .say (ofCode c)
        | .ok q => do .say (ofCode 0); e.takeData q (UInt64.ofNat data.length) offset)
        more t := by
  rw [feed_attend, Request.arguments, List.append_assoc]
  refine ((reads_path hp).feed_bind _ _ t).trans ?_
  refine ((reads_size _).feed_bind _ _ t).trans ?_
  exact ((reads_size offset).feed_bind _ _ t).trans (feed_inspect _ _ _ _)

theorem feed_takeData {e : Export} {q : Path} {offset : UInt64} {data : Bytes} (t : Tree)
    (h : data.length ≤ e.maxIo.toNat) :
    (e.takeData q (UInt64.ofNat data.length) offset).feed data t =
      ⟨.done (), replySize (writeAt q offset data t).1, [], (writeAt q offset data t).2⟩ := by
  have hr := (reads_block (σ := Tree) h).feed_bind
    (fun data => do Dialogue.say (replySize (← .update (writeAt q offset data)))) [] t
  rw [List.append_nil] at hr
  exact hr.trans (feed_change _ _ _ _)

/-- A file is opened only for data that the export takes. -/
theorem length_le_of_openForWrite {e : Export} {t : Tree} {path : String} {n : Nat} {q : Path}
    (hn : n < 2 ^ 64) (h : e.openForWrite t path (UInt64.ofNat n) = .ok q) :
    n ≤ e.maxIo.toNat := by
  unfold openForWrite at h
  split at h
  · cases h
  · next hle =>
    exact Nat.not_lt.mp (mt (lt_ofNat_iff hn).mpr hle)

end Export

end UnionFS
