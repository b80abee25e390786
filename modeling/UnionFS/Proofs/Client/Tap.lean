import UnionFS.Proofs.Client.Streams
import UnionFS.Proofs.Wire.Runs

/-!
# A carrier that is listened to

The same carrier with a log of what is done on its streams, each of which is known by the place in
the log where it begins.  Listening changes nothing (`converse_tapped_state`), and what is noted of
a dialogue is what the dialogue says and hears (`converse_tapped`).
-/

namespace UnionFS.Client

open Dialogue

/-- What is done on a stream, which is known by its number. -/
inductive Signal where
  | dialled (stream : Nat)
  | sent (stream : Nat) (bytes : Bytes)
  | heard (stream : Nat) (bytes : Bytes)
  /-- Nothing could be sent, or nothing came. -/
  | failed (stream : Nat)
  | shut (stream : Nat)
  | dropped (stream : Nat)
  deriving DecidableEq, Repr

namespace Signal

def stream : Signal → Nat
  | dialled k | sent k _ | heard k _ | failed k | shut k | dropped k => k

/-- Something done on a stream between its beginning and its end. -/
structure Within (k : Nat) (x : Signal) : Prop where
  stream : x.stream = k
  begun : x ≠ dialled k
  lasting : x ≠ dropped k

theorem within_sent (k : Nat) (b : Bytes) : Within k (sent k b) := ⟨rfl, nofun, nofun⟩
theorem within_heard (k : Nat) (b : Bytes) : Within k (heard k b) := ⟨rfl, nofun, nofun⟩
theorem within_failed (k : Nat) : Within k (failed k) := ⟨rfl, nofun, nofun⟩
theorem within_shut (k : Nat) : Within k (shut k) := ⟨rfl, nofun, nofun⟩

/-- All bytes that were sent. -/
def allSent (signals : List Signal) : Bytes :=
  signals.flatMap fun
    | sent _ bytes => bytes
    | _ => []

/-- All bytes that were heard. -/
def allHeard (signals : List Signal) : Bytes :=
  signals.flatMap fun
    | heard _ bytes => bytes
    | _ => []

end Signal

/-- A state with the log. -/
structure Tap (S : Type) where
  state : S
  log : List Signal := []

/-- A stream with its number. -/
structure Numbered (L : Type) where
  number : Nat
  line : L

variable {S L α : Type}

/-- The state after something that is noted. -/
def Tap.note (t : Tap S) (s : S) (signal : Signal) : Tap S :=
  { state := s, log := t.log ++ [signal] }

namespace Carrier

/-- A receive gives as many bytes as were asked for, or fails. -/
def Exact (net : Carrier (StateM S) L) : Prop :=
  ∀ l count s bytes s', net.receive l count s = (.ok bytes, s') → bytes.length = count

/-- The carrier with a log. -/
def tapped (net : Carrier (StateM S) L) : Carrier (StateM (Tap S)) (Numbered L) where
  dial address := fun t =>
    match net.dial address t.state with
    | (.ok line, s) => (.ok ⟨t.log.length, line⟩, t.note s (.dialled t.log.length))
    | (.error e, s) => (.error e, { t with state := s })
  send l bytes := fun t =>
    match net.send l.line bytes t.state with
    | (.ok (), s) => (.ok (), t.note s (.sent l.number bytes))
    | (.error e, s) => (.error e, t.note s (.failed l.number))
  receive l count := fun t =>
    match net.receive l.line count t.state with
    | (.ok bytes, s) => (.ok bytes, t.note s (.heard l.number bytes))
    | (.error e, s) => (.error e, t.note s (.failed l.number))
  shutdown l := fun t =>
    let (r, s) := net.shutdown l.line t.state
    (r, t.note s (.shut l.number))
  drop l := fun t => ((), t.note (net.drop l.line t.state).2 (.dropped l.number))

variable (net : Carrier (StateM S) L) (l : Numbered L)

theorem dial_tapped (address : String) (t : Tap S) :
    net.tapped.dial address t =
      match net.dial address t.state with
      | (.ok line, s) => (.ok ⟨t.log.length, line⟩, t.note s (.dialled t.log.length))
      | (.error e, s) => (.error e, { t with state := s }) := rfl

theorem send_tapped (b : Bytes) (t : Tap S) :
    net.tapped.send l b t =
      match net.send l.line b t.state with
      | (.ok (), s) => (.ok (), t.note s (.sent l.number b))
      | (.error e, s) => (.error e, t.note s (.failed l.number)) := rfl

theorem receive_tapped (n : Nat) (t : Tap S) :
    net.tapped.receive l n t =
      match net.receive l.line n t.state with
      | (.ok bytes, s) => (.ok bytes, t.note s (.heard l.number bytes))
      | (.error e, s) => (.error e, t.note s (.failed l.number)) := rfl

/-- Listening to a dialogue changes nothing about it. -/
theorem converse_tapped_state (d : Dialogue Unit α) (t : Tap S) :
    net.converse l.line d t.state =
      ((net.tapped.converse l d t).1, (net.tapped.converse l d t).2.state) := by
  induction d generalizing t with
  | done a => rfl
  | fail e => rfl
  | send b d ih =>
    rw [converse_send, converse_send, send_tapped]
    rcases net.send l.line b t.state with ⟨_ | _, s⟩
    · rfl
    · exact ih (t.note s (.sent l.number b))
  | receive n d ih =>
    rw [converse_receive, converse_receive, receive_tapped]
    rcases net.receive l.line n t.state with ⟨_ | bytes, s⟩
    · rfl
    · exact ih bytes (t.note s (.heard l.number bytes))
  | consult d ih => exact ih () t
  | commit s' d ih => exact ih t

variable {net}

/-- **What is noted of a dialogue is what it says and hears**, up to its end or to where it breaks
off. -/
theorem converse_tapped (hnet : net.Exact) (d : Dialogue Unit α) (t : Tap S) :
    ∃ signals, (net.tapped.converse l d t).2.log = t.log ++ signals
      ∧ (∀ x ∈ signals, x.Within l.number)
      ∧ ((∃ a, (net.tapped.converse l d t).1 = .ok a
          ∧ Runs d (Signal.allSent signals) (Signal.allHeard signals) a)
        ∨ ∃ e, (net.tapped.converse l d t).1 = .error e ∧ Breaks d (Signal.allHeard signals)) := by
  induction d generalizing t with
  | done a => exact ⟨[], (List.append_nil _).symm, nofun, .inl ⟨a, rfl, .done a⟩⟩
  | fail e => exact ⟨[], (List.append_nil _).symm, nofun, .inr ⟨e, rfl, .fail e⟩⟩
  | consult d ih =>
    obtain ⟨signals, hlog, hwithin, hd⟩ := ih () t
    refine ⟨signals, hlog, hwithin, ?_⟩
    rcases hd with ⟨a, ha, hruns⟩ | ⟨e, he, hbreaks⟩
    · exact .inl ⟨a, ha, .consult hruns⟩
    · exact .inr ⟨e, he, .consult hbreaks⟩
  | commit s' d ih =>
    obtain ⟨signals, hlog, hwithin, hd⟩ := ih t
    refine ⟨signals, hlog, hwithin, ?_⟩
    rcases hd with ⟨a, ha, hruns⟩ | ⟨e, he, hbreaks⟩
    · exact .inl ⟨a, ha, .commit hruns⟩
    · exact .inr ⟨e, he, .commit hbreaks⟩
  | send b d ih =>
    rw [converse_send, send_tapped]
    rcases net.send l.line b t.state with ⟨e | _, s⟩
    · exact ⟨_, rfl, List.forall_mem_singleton.mpr (Signal.within_failed _),
        .inr ⟨e, rfl, .unsent⟩⟩
    · obtain ⟨signals, hlog, hwithin, hd⟩ := ih (t.note s (.sent l.number b))
      refine ⟨_, hlog.trans (List.append_assoc _ _ _),
        List.forall_mem_cons.mpr ⟨Signal.within_sent _ b, hwithin⟩, ?_⟩
      rcases hd with ⟨a, ha, hruns⟩ | ⟨e, he, hbreaks⟩
      · exact .inl ⟨a, ha, .send hruns⟩
      · exact .inr ⟨e, he, .send hbreaks⟩
  | receive n d ih =>
    rw [converse_receive, receive_tapped]
    rcases hreceive : net.receive l.line n t.state with ⟨e | bytes, s⟩
    · exact ⟨_, rfl, List.forall_mem_singleton.mpr (Signal.within_failed _),
        .inr ⟨e, rfl, .unheard⟩⟩
    · obtain rfl := hnet _ _ _ _ _ hreceive
      obtain ⟨signals, hlog, hwithin, hd⟩ := ih bytes (t.note s (.heard l.number bytes))
      refine ⟨_, hlog.trans (List.append_assoc _ _ _),
        List.forall_mem_cons.mpr ⟨Signal.within_heard _ bytes, hwithin⟩, ?_⟩
      rcases hd with ⟨a, ha, hruns⟩ | ⟨e, he, hbreaks⟩
      · exact .inl ⟨a, ha, .receive hruns⟩
      · exact .inr ⟨e, he, .receive hbreaks⟩

end Carrier
end UnionFS.Client
