import UnionFS.Session.Basic

/-!
# Clients that go away

A client may go away for good, and not only close its side.  What it has sent before that is still
there to be read, but there is nobody to be told: after so many sends, which the line takes before
it is found to be broken, the next one fails, and a send that fails ends the session wherever it is.
-/

namespace UnionFS

namespace Dialogue

variable {σ α : Type}

/-- The dialogue over a line that takes so many more sends.  Its value comes with how many are left.
-/
def curtail : Dialogue σ α → Nat → Dialogue σ (α × Nat)
  | done a, sends => done (a, sends)
  | fail e, _ => fail e
  | send _ _, 0 => fail .closed
  | send b d, sends + 1 => send b (d.curtail sends)
  | receive n d, sends => receive n fun b => (d b).curtail sends
  | consult d, sends => consult fun s => (d s).curtail sends
  | commit s d, sends => commit s (d.curtail sends)

end Dialogue

/-- The tree after all of `input` has been served over a line that takes so many more sends. -/
def Export.serveGone (e : Export) (sends : Nat) (t : Tree) (input : Bytes) : Tree :=
  match input with
  | [] | [_] => t
  | a :: b :: rest =>
    match Command.ofWord? (UInt16.ofNat (Bytes.toNat [a, b])) with
    | none => e.serveGone sends t rest
    | some .stop => t
    | some .heartbeat =>
      match sends with
      | 0 => t
      | sends + 1 => e.serveGone sends t rest
    | some command =>
      let p := ((e.serve command).curtail sends).feed rest t
      match p.pending.outcome? with
      | some (.ok ((), left)) => e.serveGone left p.state p.unread
      | _ => p.state
termination_by input.length
decreasing_by
  · simp only [List.length_cons]; omega
  · simp only [List.length_cons]; omega
  · have := Dialogue.length_unread_feed ((e.serve command).curtail sends) rest t
    simp only [List.length_cons]; omega

/-- The tree after a dialogue that may open an export, and after all that is served of it then. -/
def Dialogue.serveGone {α : Type} (opens : α → Option Export) (d : Dialogue Tree α) (sends : Nat)
    (t : Tree) (input : Bytes) : Tree :=
  let p := (d.curtail sends).feed input t
  match p.pending.outcome? with
  | some (.ok (a, left)) =>
    match opens a with
    | some e => e.serveGone left p.state p.unread
    | none => p.state
  | _ => p.state

/-- The tree that a session leaves whose client sends `bytes` and goes away at once. -/
def Session.leave (s : Session) (sends : Nat) (t : Tree) (bytes : Bytes) : Tree :=
  match s.phase with
  | .closed _ => t
  | .idle e | .half e => e.serveGone sends t (s.unread ++ bytes)
  | .authenticating pending =>
    pending.serveGone Except.toOption sends t (s.unread ++ bytes)
  | .busy e pending => pending.serveGone (fun _ => some e) sends t (s.unread ++ bytes)

end UnionFS
