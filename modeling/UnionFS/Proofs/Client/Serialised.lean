import UnionFS.Proofs.Client.Serial

/-!
# Streams that are shared

What happens on the streams of a connection while any callers make requests and heartbeats on it is
what happens in one whole errand after another, in the order in which the lock was taken
(`noted_steps`).  So no exchange of one caller comes between those of another, and every answer is
made of the replies to its own request.
-/

namespace UnionFS.Client

variable {ι L : Type}

/-! ## What happens on the streams -/

section
variable {S : Type} {net : Carrier (StateM S) L}

theorem log_perform (a : Action (Numbered L)) (c : Connection (Numbered L)) (t : Tap S) :
    t.log <+: ((a.perform net.tapped c).run t).2.log := by
  cases a with
  | dial address =>
    show _ <+: (net.tapped.dial address t).2.log
    rw [Carrier.dial_tapped]
    split
    · exact List.prefix_append _ _
    · exact List.prefix_rfl
  | send line bytes =>
    show _ <+: (net.tapped.send line bytes t).2.log
    rw [Carrier.send_tapped]
    split <;> exact List.prefix_append _ _
  | receive line count =>
    show _ <+: (net.tapped.receive line count t).2.log
    rw [Carrier.receive_tapped]
    split <;> exact List.prefix_append _ _
  | shutdown | drop => exact List.prefix_append _ _
  | _ => exact List.prefix_rfl

theorem Performs.log {start now : Connection (Numbered L) × Tap S}
    (h : Performs net.tapped start now) : start.2.log <+: now.2.log := by
  induction h with
  | refl => exact List.prefix_rfl
  | tail a _ ih => exact ih.trans (log_perform a _ _)

theorem log_alone {α : Type} (r : Routine (Numbered L) α) (c : Connection (Numbered L))
    (t : Tap S) : t.log <+: (r.alone net.tapped c t).2.log := by
  induction r generalizing c t with
  | done a => exact List.prefix_rfl
  | ask a next ih => exact (log_perform a c t).trans (ih _ _ _)

end

namespace Shared

variable {S : Type} [DecidableEq ι]

/-- What is noted of requests and heartbeats on one connection, begun by anybody at any time. -/
structure Noted (net : Carrier (StateM S) L) (c : Connection (Numbered L)) (t : Tap S)
    (es : List (Event ι (Numbered L))) (s : Shared ι (Numbered L) (Tap S)) : Prop where
  /-- One errand after another, each of them whole. -/
  log : s.holder = none → s.network.log =
    t.log ++ (course net ((turns es).map (·.2)) c t).flatMap (·.signals)
  sent : s.holder = none → Signal.allSent s.network.log =
    Signal.allSent t.log
      ++ (course net ((turns es).map (·.2)) c t).flatMap fun x => Signal.allSent x.signals
  /-- Of the last of them a part, while its caller has the lock. -/
  held : ∀ i, s.holder = some i → ∃ before x used,
    course net ((turns es).map (·.2)) c t = before ++ [x]
      ∧ (turns es).getLast? = some (i, x.errand)
      ∧ s.network.log = t.log ++ before.flatMap (·.signals) ++ used ∧ used <+: x.signals
  /-- Every answer is made of the replies to its own request, all of them complete, or the stream is
  gone. -/
  own : ∀ x ∈ course net ((turns es).map (·.2)) c t,
    (∃ fresh, Settles x.before fresh x.errand x.answer x.after x.signals)
      ∧ x.after.Consistent ∧ x.Accounted
  /-- Listening changes nothing. -/
  plain : (course net ((turns es).map (·.2)) c t).map Episode.told =
    conduct net ((turns es).map (·.2)) c.plain t.state

variable {net : Carrier (StateM S) L} {c : Connection (Numbered L)} {t : Tap S}
  {es : List (Event ι (Numbered L))} {s : Shared ι (Numbered L) (Tap S)}

theorem noted_steps (hnet : net.Exact) (hc : c.Consistent)
    (run : Steps net.tapped ({ connection := c, network := t } : Shared ι _ _) es s)
    (hes : AllSerial es) : Noted net c t es s := by
  have hturn := inTurn_steps run hes
  have hlog (hfree : s.holder = none) : s.network.log =
      t.log ++ (course net ((turns es).map (·.2)) c t).flatMap (·.signals) := by
    rw [← log_final hnet, ← hturn.free hfree]
  refine ⟨hlog, fun hfree => ?_, fun i hi => ?_, fun x hx => ?_, told_course net _ c t⟩
  · rw [hlog hfree]
    simp [Signal.allSent, List.flatMap_append, List.flatMap_assoc]
  · obtain ⟨before, e, o, rest, hbefore, hholds⟩ := hturn.held i hi
    obtain ⟨used, hused⟩ := hholds.performs.log
    obtain ⟨more, hmore⟩ : s.network.log <+: (rest.alone net.tapped s.connection s.network).2.log :=
      log_alone rest s.connection s.network
    have hstart := log_final hnet (before.map (·.2)) c t
    generalize hfinal : final net.tapped (before.map (·.2)) c t = start at *
    change start.2.log ++ used = s.network.log at hused
    -- The errand notes what has been noted since the lock was taken, and what its rest would note.
    rw [hholds.finishes.network, ← hused, List.append_assoc] at hmore
    have hcourse : course net ((turns es).map (·.2)) c t =
        course net (before.map (·.2)) c t ++ [⟨start.1, e, (e.run net.tapped start.1 start.2).1.1,
          (e.run net.tapped start.1 start.2).1.2, used ++ more⟩] := by
      rw [hbefore, List.map_append, List.map_singleton, course_concat, hfinal, course, ← hmore,
        List.drop_left]
      rfl
    refine ⟨_, _, used, hcourse, ?_, ?_, List.prefix_append _ _⟩
    · rw [hbefore]
      exact List.getLast?_concat
    · rw [← hused, hstart]
  · obtain ⟨hsettles, hconsistent⟩ := settled_course hnet hc x hx
    exact ⟨hsettles, hconsistent, accounted_course hnet x hx⟩

/-- Callers who share a connection over the carrier are served one after another. -/
structure Serialises (ι : Type) [DecidableEq ι] (net : Carrier (StateM S) L) : Prop where
  inTurn : ∀ c n es s, Steps net ({ connection := c, network := n } : Shared ι L S) es s →
    AllSerial es → InTurn net c n es s
  noted : ∀ c t es s, c.Consistent →
    Steps net.tapped ({ connection := c, network := t } : Shared ι (Numbered L) (Tap S)) es s →
    AllSerial es → InTurn net.tapped c t es s ∧ Noted net c t es s

/--
**Requests and heartbeats that share a connection are serialised**, whoever takes the next step and
whatever comes back.

The order is the one in which they took the lock.  Where an exchange breaks off, the stream is gone
for those who come after it in that order, just as it would be if all were made by one caller.
-/
theorem serialises (hnet : net.Exact) : Serialises ι net :=
  ⟨fun _ _ _ _ run hes => inTurn_steps run hes,
    fun _ _ _ _ hc run hes => ⟨inTurn_steps run hes, noted_steps hnet hc run hes⟩⟩

theorem serialises_sample :
    (Network.carrier 1000).Exact ∧ Serialises Nat (Network.carrier 1000) :=
  ⟨exact_carrier 1000, serialises (exact_carrier 1000)⟩

/-- Two callers on a connection: the first to begin is not the first to take the lock. -/
def sampleTurns : List (Event Bool Nat) :=
  let (connection, network) := final (Network.carrier 1000) [.connect]
    { peer := ⟨"alpha", 2678, "key"⟩, config := { keyDir := "" } } sampleScripted
  let start : Shared Bool Nat Network := { connection, network }
  (start.follow (Network.carrier 1000)
    (.begin false (.request (.getattr "/f")) :: .begin true (.request (.getattr "/g"))
      :: (List.replicate 15 [.goOn true, .goOn false]).flatten)).1

set_option maxRecDepth 3000 in
example : turns sampleTurns =
    [(true, .request (.getattr "/g")), (false, .request (.getattr "/f"))] := by
  cbv

-- The reply to the second of them breaks off.
set_option maxRecDepth 3000 in
example : told { keyDir := "" } true sampleTurns =
      [⟨.request (.getattr "/g"), .error .notFound⟩]
    ∧ told { keyDir := "" } false sampleTurns =
      [⟨.request (.getattr "/f"), .error .notConnected⟩] := by
  constructor <;> cbv

end Shared
end UnionFS.Client
