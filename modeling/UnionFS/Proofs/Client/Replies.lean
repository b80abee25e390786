import UnionFS.Client.Exchange
import UnionFS.Proofs.Export.Attend
import UnionFS.Proofs.Export.Refusal
import UnionFS.Proofs.Export.Success

/-!
# Replies as a client reads them

A client reads a reply by its first code: a negative one is all there is, and after any other comes
what the request asked for.  Since an export refuses with negative codes only, and gives codes that
are not negative for everything else, the client takes each response exactly (`reads_response`).
-/

namespace UnionFS.Client

open Dialogue Wire

variable {σ α : Type}

theorem reads_refusal {next : Dialogue σ α} {c : Code} (h : c < 0) :
    Reads (unlessRefused next) (ofCode c) (.error c) := by
  refine ((reads_code c).bind ?_).of_eq (List.append_nil _)
  rw [if_pos h]
  exact .done _

theorem reads_accepted {next : Dialogue σ α} {c : Code} {b : Bytes} {a : α} (h : ¬ c < 0)
    (hn : Reads next b a) : Reads (unlessRefused next) (ofCode c ++ b) (.ok a) := by
  refine (reads_code c).bind ?_
  rw [if_neg h]
  exact hn.map _

theorem reads_replyUnit {o : Outcome Unit} (ho : Refuses o) :
    Reads (σ := σ) (unlessRefused (.done ())) (Export.replyUnit o) o := by
  cases o with
  | ok a => exact (reads_accepted (by decide) (.done ())).of_eq (List.append_nil _)
  | error c => exact reads_refusal (ho c rfl)

theorem reads_replyStat {o : Outcome Stat} (ho : Refuses o) :
    Reads (σ := σ) (unlessRefused readStat) (Export.replyStat o) o := by
  cases o with
  | ok stat => exact reads_accepted (by decide) (reads_stat stat)
  | error c => exact reads_refusal (ho c rfl)

theorem reads_replySize {o : Outcome UInt64} (ho : Refuses o) :
    Reads (σ := σ) (unlessRefused readSize) (Export.replySize o) o := by
  cases o with
  | ok size => exact reads_accepted (by decide) (reads_size size)
  | error c => exact reads_refusal (ho c rfl)

/-- A length that memory can have is no refusal when it is sent as a code. -/
theorem not_ofNat_neg {n : Nat} (h : n < 2 ^ 63) : ¬ Int64.ofNat n < 0 := by
  rw [Int64.lt_iff_toInt_lt, Int64.toInt_ofNat_of_lt h]
  exact Int.not_lt.mpr (Int.natCast_nonneg n)

/-- Memory holds fewer bytes than this in one block. -/
def blockLimit : Nat := 2 ^ 63

/-- The answer is one that the client takes: a listing within its limits, a block that fits. -/
def Limits.Takes (limits : Limits) : (r : Request) → Outcome r.Answer → Prop
  | .readdir _, .ok entries =>
    entries.length ≤ limits.maxEntries.toNat
      ∧ ∀ x ∈ entries, (Utf8.encode x.name).length ≤ limits.maxPath.toNat
  | .read _ _ _, .ok data => data.length < blockLimit
  | _, _ => True

theorem reads_replyEntries {limits : Limits} {path : String} {o : Outcome (List Entry)}
    (ho : Refuses o) (h : limits.Takes (.readdir path) o) :
    Reads (σ := σ) (readReply limits (.readdir path)) (Export.replyEntries o) o := by
  cases o with
  | error c => exact reads_refusal (ho c rfl)
  | ok entries =>
      obtain ⟨hcount, hnames⟩ := h
      have hlen : (UInt64.ofNat entries.length).toNat = entries.length :=
        toNat_ofNat_length (Nat.lt_of_le_of_lt hcount limits.maxEntries.toNat_lt)
      rw [Export.replyEntries, List.append_assoc]
      refine reads_accepted (by decide) ((reads_size _).bind ?_)
      rw [if_neg (not_lt_ofNat hcount), hlen]
      exact reads_entries hnames

theorem reads_replyData {limits : Limits} {path : String} {size offset : UInt64}
    {o : Outcome Bytes} (ho : Refuses o) (h : limits.Takes (.read path size offset) o)
    (hsize : ∀ data, o = .ok data → data.length ≤ size.toNat) :
    Reads (σ := σ) (readReply limits (.read path size offset)) (Export.replyData o) o := by
  cases o with
  | error c => exact reads_refusal (ho c rfl)
  | ok data =>
      rw [Export.replyData, List.append_assoc]
      refine reads_accepted (not_ofNat_neg h) ((reads_size _).bind ?_)
      exact reads_block (hsize data rfl)

/-- A read gives no more than was asked for. -/
theorem length_le_of_read {e : Export} {t : Tree} {path : String} {size offset : UInt64}
    {data : Bytes} (h : e.read t path size offset = .ok data) : data.length ≤ size.toNat := by
  obtain ⟨-, -, q, n, -, -, rfl⟩ := Export.read_eq_ok.mp h
  exact List.length_take_le _ _

/-- **The client takes exactly the response to a request that is answered at once**, and ends in
what the request came to. -/
theorem reads_response {limits : Limits} {e : Export} {t : Tree} {r : Request}
    (hr : ∀ path data offset, r ≠ .write path data offset)
    (h : limits.Takes r (e.perform t r).1) :
    Reads (σ := σ) (readReply limits r) (e.response t r) (e.perform t r).1 := by
  have ho := e.refuses_perform t r
  cases r with
  | getattr path => exact reads_replyStat ho
  | access path mask => exact reads_replyUnit ho
  | readdir path => exact reads_replyEntries ho h
  | read path size offset => exact reads_replyData ho h fun _ => length_le_of_read
  | write path data offset => exact absurd rfl (hr path data offset)
  | openFile path flags => exact reads_replyUnit ho

/-! ## The replies to a write -/

theorem reads_write_refused {limits : Limits} {path : String} {data : Bytes} {offset : UInt64}
    {c : Code} (h : c < 0) :
    Reads (σ := σ) (readReply limits (.write path data offset)) (ofCode c) (.error c) := by
  refine (Reads.bind (reads_refusal h) ?_).of_eq (List.append_nil _)
  exact .done _

/-- Once the file is open the client sends the data, and takes the size for its answer. -/
theorem converse_write_opened {τ β : Type} {limits : Limits} {path : String} {data : Bytes}
    {offset : UInt64} (s : σ) (more : Bytes) (far : Progress τ β) :
    (readReply limits (.write path data offset)).converse s
        { far with sent := ofCode 0 ++ more } =
      ((unlessRefused readSize).converse s
        (Progress.hear { far with sent := more } data)).after data (ofCode 0) := by
  show (Dialogue.bind (Dialogue.bind readCode _) _).converse s _ = _
  rw [Dialogue.bind_assoc]
  refine ((reads_code 0).converse_bind _ s more far).trans ?_
  rw [if_neg (by decide)]
  show (((unlessRefused readSize).converse s _).after data []).after [] (ofCode 0) = _
  rw [Conversation.after_after, List.nil_append, List.append_nil]

end UnionFS.Client
