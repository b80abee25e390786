import UnionFS.Proofs.Client.Errands

/-!
# A connection never gets out of step

A connection is used for one errand after another, over a carrier that may give any bytes, fail at
any step, or let the client wait until its patience ends.  After each errand the stream is in place
and every exchange has had its one reply, or the stream is gone (`inStep_course`): then nothing is
sent or heard until a new stream has been opened, and on the old one nothing happens any more.

What carries the last of these through the log is that a stream in use was begun in the log and not
dropped (`Open`), and that nothing follows the end of a stream (`Tidy`).
-/

namespace UnionFS.Client

variable {S L : Type}

/-! ## Logs -/

namespace Signal

/-- If the first of two signals ends a stream, the second is about another one. -/
def Over (a b : Signal) : Prop :=
  ∀ k, a = dropped k → b.stream ≠ k

/-- Streams are begun at their place in the log, and not used after their end. -/
structure Tidy (log : List Signal) : Prop where
  past : ∀ x ∈ log, x.stream < log.length
  ended : log.Pairwise Over

/-- The stream has begun and not ended. -/
structure Open (log : List Signal) (k : Nat) : Prop where
  begun : k < log.length
  lasting : dropped k ∉ log

variable {log signals : List Signal} {j k : Nat}

theorem tidy_nil : Tidy [] := ⟨nofun, .nil⟩

theorem Open.append (hj : Open log j) (hs : dropped j ∉ signals) : Open (log ++ signals) j := by
  refine ⟨?_, fun hmem => ?_⟩
  · rw [List.length_append]
    exact Nat.lt_add_right _ hj.begun
  · rcases List.mem_append.mp hmem with hmem | hmem
    · exact hj.lasting hmem
    · exact hs hmem

theorem Tidy.append (h : Tidy log) (hpast : ∀ x ∈ signals, x.stream < log.length + signals.length)
    (hover : signals.Pairwise Over) (hnew : ∀ x ∈ signals, dropped x.stream ∉ log) :
    Tidy (log ++ signals) := by
  refine ⟨fun x hx => ?_, List.pairwise_append.mpr ⟨h.ended, hover, ?_⟩⟩
  · rw [List.length_append]
    rcases List.mem_append.mp hx with hx | hx
    · exact Nat.lt_add_right _ (h.past x hx)
    · exact hpast x hx
  · intro a ha b hb k hk hstream
    rw [hk, ← hstream] at ha
    exact hnew b hb ha

theorem not_dropped_of_within (hs : ∀ x ∈ signals, x.Within k) : dropped j ∉ signals := by
  intro hmem
  have hstream : j = k := (hs _ hmem).stream
  exact (hs _ hmem).lasting (by rw [hstream])

/-- A stream in use is used. -/
theorem Tidy.within (h : Tidy log) (hk : Open log k) (hs : ∀ x ∈ signals, x.Within k) :
    Tidy (log ++ signals) := by
  refine h.append (fun x hx => ?_) ?_ fun x hx => ?_
  · rw [(hs x hx).stream]
    exact Nat.lt_add_right _ hk.begun
  · refine List.pairwise_of_forall_mem_list fun a ha b _ j hj => ?_
    exact absurd (hj ▸ ha) (not_dropped_of_within hs)
  · rw [(hs x hx).stream]
    exact hk.lasting

/-- A new stream is opened. -/
theorem Tidy.dial (h : Tidy log) : Tidy (log ++ [dialled log.length]) := by
  refine h.append (fun x hx => ?_) (List.pairwise_singleton _ _) fun x hx hmem => ?_
  · obtain rfl := List.mem_singleton.mp hx
    exact Nat.lt_succ_self _
  · obtain rfl := List.mem_singleton.mp hx
    exact Nat.lt_irrefl _ (h.past _ hmem)

theorem Tidy.open_dial (h : Tidy log) : Open (log ++ [dialled log.length]) log.length := by
  refine ⟨?_, fun hmem => ?_⟩
  · rw [List.length_append, List.length_singleton]
    exact Nat.lt_succ_self _
  · rcases List.mem_append.mp hmem with hmem | hmem
    · exact Nat.lt_irrefl _ (h.past _ hmem)
    · cases List.mem_singleton.mp hmem

/-- A stream in use is let go of. -/
theorem Tidy.drop (h : Tidy log) (hk : Open log k) : Tidy (log ++ [dropped k]) := by
  refine h.append (fun x hx => ?_) (List.pairwise_singleton _ _) fun x hx => ?_
  · obtain rfl := List.mem_singleton.mp hx
    exact Nat.lt_add_right _ hk.begun
  · obtain rfl := List.mem_singleton.mp hx
    exact hk.lasting

end Signal

/-! ## One errand -/

open Signal

/-- An errand, the connection before and after it, what came of it and what was noted. -/
structure Episode (L : Type) where
  before : Connection (Numbered L)
  errand : Errand
  answer : errand.Answer
  after : Connection (Numbered L)
  signals : List Signal

namespace Episode

/-- A stream has been opened. -/
def Connects : Episode L → Prop
  | ⟨_, .connect, answer, _, _⟩ => answer = .ok ()
  | _ => False

/-- Nothing was sent or heard, and a request was refused. -/
def CutOff : Episode L → Prop
  | ⟨c, .request r, answer, _, signals⟩ =>
    signals = [] ∧ answer = .error
      (if c.config.maxPath.toNat < (Utf8.encode r.path).length then .nameTooLong else .notConnected)
  | ⟨_, .beat, answer, _, signals⟩ => signals = [] ∧ answer = false
  | ⟨_, .stop, _, _, signals⟩ => signals = []
  | ⟨_, .connect, _, _, _⟩ => True

/-- What came of the errand, as one sees it who does not listen. -/
def told (x : Episode L) : (e : Errand) × e.Answer := ⟨x.errand, x.answer⟩

end Episode

variable {limits : Limits} {k : Nat} {α : Type} {p : Exchanges α} {signals : List Signal}

theorem Answered.within {a : α} (h : Answered limits k p signals a) :
    ∀ x ∈ signals, x.Within k := by
  induction h with
  | done a => exact nofun
  | ask hexchanged _ ih =>
      intro x hx
      rcases List.mem_append.mp hx with hx | hx
      · exact hexchanged.within x hx
      · exact ih x hx

/-- The end of the stream is the last thing noted of what was interrupted. -/
theorem Interrupted.exists_eq (h : Interrupted limits k p signals) :
    ∃ used, signals = used ++ [.dropped k] ∧ ∀ x ∈ used, x.Within k := by
  induction h with
  | severed hsevered => exact ⟨_, rfl, hsevered.within⟩
  | @ask q next before _ o hexchanged _ ih =>
      obtain ⟨used, rfl, hused⟩ := ih
      refine ⟨before ++ used, (List.append_assoc _ _ _).symm, fun x hx => ?_⟩
      rcases List.mem_append.mp hx with hx | hx
      · exact hexchanged.within x hx
      · exact hused x hx

/-- The log is tidy, and the connection's stream is open. -/
structure Afloat (c : Connection (Numbered L)) (log : List Signal) : Prop where
  tidy : Tidy log
  line : ∀ l, c.line = some l → Open log l.number

variable {c c' : Connection (Numbered L)} {log : List Signal} {l : Numbered L}

theorem Afloat.within (h : Afloat c log) (hline : c.line = some l)
    (hs : ∀ x ∈ signals, x.Within l.number) : Afloat c (log ++ signals) := by
  refine ⟨h.tidy.within (h.line l hline) hs, fun l' hl' => ?_⟩
  exact (h.line l' hl').append (not_dropped_of_within hs)

/-- A connection lets go of its stream after having used it. -/
theorem Afloat.drop (h : Afloat c log) (hline : c.line = some l)
    (hs : ∀ x ∈ signals, x.Within l.number) (hnone : c'.line = none) :
    Afloat c' (log ++ (signals ++ [.dropped l.number])) := by
  have hused := h.within hline hs
  rw [← List.append_assoc]
  refine ⟨hused.tidy.drop (hused.line l hline), fun l' hl' => ?_⟩
  rw [hnone] at hl'
  cases hl'

/-- A new stream is opened and used. -/
theorem Afloat.dial (h : Afloat c log) (hs : ∀ x ∈ signals, x.Within log.length) :
    Afloat c (log ++ (.dialled log.length :: signals))
      ∧ Open (log ++ (.dialled log.length :: signals)) log.length := by
  have happ : log ++ (.dialled log.length :: signals) = (log ++ [.dialled log.length]) ++ signals :=
    List.append_cons _ _ _
  rw [happ]
  refine ⟨⟨h.tidy.dial.within h.tidy.open_dial hs, fun l hl => ?_⟩,
    h.tidy.open_dial.append (not_dropped_of_within hs)⟩
  have hdialled : Signal.dropped l.number ∉ [Signal.dialled log.length] := by
    intro hmem
    cases List.mem_singleton.mp hmem
  exact ((h.line l hl).append hdialled).append (not_dropped_of_within hs)

/-- **Whatever an errand leads to, the log stays tidy**, and the stream that the connection has is
open. -/
theorem Settles.afloat {e : Errand} {answer : e.Answer}
    (h : Settles c log.length e answer c' signals) (hc : Afloat c log) :
    Afloat c' (log ++ signals) := by
  cases h with
  | tooLong | cutOff | unheard | unopened =>
      rw [List.append_nil]
      exact hc
  | answered hshort hline hanswered => exact hc.within hline hanswered.within
  | beaten hline hwithin => exact hc.within hline hwithin
  | interrupted hshort hline hinterrupted =>
      obtain ⟨used, rfl, hused⟩ := hinterrupted.exists_eq
      exact hc.drop hline hused rfl
  | unbeaten hline hwithin => exact hc.drop hline hwithin rfl
  | stopped hline hwithin => exact hc.drop hline hwithin rfl
  | idle hline =>
      rw [List.append_nil]
      exact ⟨hc.tidy, nofun⟩
  | rejected hwithin =>
      obtain ⟨hafloat, hopen⟩ := hc.dial hwithin
      rw [← List.cons_append, ← List.append_assoc]
      refine ⟨hafloat.tidy.drop hopen, fun l hl => ?_⟩
      refine (hafloat.line l hl).append fun hmem => ?_
      have hnumber := Signal.dropped.inj (List.mem_singleton.mp hmem)
      exact Nat.ne_of_lt (hc.line l hl).begun hnumber
  | @accepted line signals hwithin =>
      obtain ⟨hafloat, hopen⟩ := hc.dial hwithin
      rw [← List.cons_append, ← List.append_assoc]
      cases hline : c.line with
      | none =>
          rw [Option.toList_none, List.map_nil, List.append_nil]
          refine ⟨hafloat.tidy, fun l hl => ?_⟩
          cases hl
          exact hopen
      | some old =>
          refine ⟨hafloat.tidy.drop (hafloat.line old hline), fun l hl => ?_⟩
          cases hl
          refine hopen.append fun hmem => ?_
          have hnumber := Signal.dropped.inj (List.mem_singleton.mp hmem)
          exact Nat.ne_of_lt (hc.line old hline).begun hnumber.symm

/-- The flag says whether there is a stream. -/
theorem Settles.consistent {fresh : Nat} {e : Errand} {answer : e.Answer}
    (h : Settles c fresh e answer c' signals) (hc : c.Consistent) : c'.Consistent := by
  cases h with
  | interrupted | unbeaten | idle | stopped | accepted => rfl
  | _ => exact hc

/-- Without a stream no errand gets one but a connect that succeeds, and none sends or hears
anything on the way there. -/
theorem Settles.cutOff_of_none {fresh : Nat} {e : Errand} {answer : e.Answer}
    (h : Settles c fresh e answer c' signals) (hline : c.line = none) :
    (Episode.mk c e answer c' signals).CutOff
      ∧ (¬ (Episode.mk c e answer c' signals).Connects → c'.line = none) := by
  cases h with
  | tooLong hlong =>
      refine ⟨⟨rfl, ?_⟩, fun _ => hline⟩
      rw [if_pos hlong]
  | cutOff hshort _ =>
      refine ⟨⟨rfl, ?_⟩, fun _ => hline⟩
      rw [if_neg (Nat.not_lt.mpr hshort)]
  | unheard => exact ⟨⟨rfl, rfl⟩, fun _ => hline⟩
  | idle => exact ⟨rfl, fun _ => rfl⟩
  | unopened => exact ⟨trivial, fun _ => hline⟩
  | rejected => exact ⟨trivial, fun _ => hline⟩
  | accepted => exact ⟨trivial, fun hfails => absurd rfl hfails⟩
  | answered _ hsome | interrupted _ hsome | beaten hsome | unbeaten hsome | stopped hsome =>
      rw [hline] at hsome
      cases hsome

/-! ## One errand after another -/

/-- The errands that are run one after another on a connection, and what comes of each. -/
def course (net : Carrier (StateM S) L) : List Errand → Connection (Numbered L) → Tap S →
    List (Episode L)
  | [], _, _ => []
  | e :: es, c, t =>
    let x := e.run net.tapped c t
    ⟨c, e, x.1.1, x.1.2, x.2.log.drop t.log.length⟩ :: course net es x.1.2 x.2

/-- The same errands where nobody listens. -/
def conduct (net : Carrier (StateM S) L) : List Errand → Connection L → S →
    List ((e : Errand) × e.Answer)
  | [], _, _ => []
  | e :: es, c, s =>
    let x := e.run net c s
    ⟨e, x.1.1⟩ :: conduct net es x.1.2 x.2

/-- The connection has never been out of step. -/
structure InStep (episodes : List (Episode L)) : Prop where
  /-- Each errand has left the stream in place, and every exchange with its reply, or no stream. -/
  settled : ∀ x ∈ episodes,
    (∃ fresh, Settles x.before fresh x.errand x.answer x.after x.signals) ∧ x.after.Consistent
  /-- Without a stream nothing is sent or heard, until a connect succeeds. -/
  cutOff : ∀ before x between y after, episodes = before ++ x :: (between ++ y :: after) →
    x.after.line = none → (∀ z ∈ between, ¬ z.Connects) → y.CutOff
  /-- Nothing happens on a stream that has been dropped. -/
  ended : (episodes.flatMap (·.signals)).Pairwise Over

variable {net : Carrier (StateM S) L} {es : List Errand} {t : Tap S}

/-- The first errand of a course, as it settles. -/
theorem course_cons (hnet : net.Exact) (e : Errand) (es : List Errand)
    (c : Connection (Numbered L)) (t : Tap S) :
    ∃ answer c' t' signals,
      course net (e :: es) c t = ⟨c, e, answer, c', signals⟩ :: course net es c' t'
      ∧ t'.log = t.log ++ signals ∧ Settles c t.log.length e answer c' signals := by
  obtain ⟨signals, hlog, hsettles⟩ := Connection.settled_run hnet c e t
  refine ⟨(e.run net.tapped c t).1.1, (e.run net.tapped c t).1.2, (e.run net.tapped c t).2, signals,
    ?_, hlog, hsettles⟩
  rw [course, hlog, List.drop_left]

theorem settled_course (hnet : net.Exact) (hc : c.Consistent) :
    ∀ x ∈ course net es c t,
      (∃ fresh, Settles x.before fresh x.errand x.answer x.after x.signals)
        ∧ x.after.Consistent := by
  induction es generalizing c t with
  | nil =>
      intro x hx
      cases hx
  | cons e es ih =>
      obtain ⟨answer, c', t', signals, hcourse, -, hsettles⟩ := course_cons hnet e es c t
      rw [hcourse]
      intro x hx
      rcases List.mem_cons.mp hx with rfl | hx
      · exact ⟨⟨_, hsettles⟩, hsettles.consistent hc⟩
      · exact ih (hsettles.consistent hc) x hx

/-- What follows a part of a course is a course. -/
theorem exists_course_of_append (hnet : net.Exact) {before rest : List (Episode L)}
    (h : course net es c t = before ++ rest) :
    ∃ es' c' t', rest = course net es' c' t' := by
  induction before generalizing es c t with
  | nil => exact ⟨es, c, t, h.symm⟩
  | cons x before ih =>
      cases es with
      | nil => cases h
      | cons e es =>
          obtain ⟨answer, c', t', signals, hcourse, -, -⟩ := course_cons hnet e es c t
          rw [hcourse] at h
          exact ih (List.cons.inj h).2

/-- Errands on a connection without a stream are cut off, as long as none opens one. -/
theorem cutOff_of_line_none (hnet : net.Exact) {between after : List (Episode L)} {y : Episode L}
    (h : course net es c t = between ++ y :: after) (hline : c.line = none)
    (hbetween : ∀ z ∈ between, ¬ z.Connects) : y.CutOff := by
  induction between generalizing es c t with
  | nil =>
      cases es with
      | nil => cases h
      | cons e es =>
          obtain ⟨answer, c', t', signals, hcourse, -, hsettles⟩ := course_cons hnet e es c t
          rw [hcourse] at h
          obtain ⟨rfl, -⟩ := List.cons.inj h
          exact (hsettles.cutOff_of_none hline).1
  | cons z between ih =>
      cases es with
      | nil => cases h
      | cons e es =>
          obtain ⟨answer, c', t', signals, hcourse, -, hsettles⟩ := course_cons hnet e es c t
          rw [hcourse] at h
          obtain ⟨rfl, hrest⟩ := List.cons.inj h
          have hc' := (hsettles.cutOff_of_none hline).2 (hbetween _ List.mem_cons_self)
          exact ih hrest hc' fun z hz => hbetween z (List.mem_cons_of_mem _ hz)

theorem cutOff_course (hnet : net.Exact) {before between after : List (Episode L)}
    {x y : Episode L} (h : course net es c t = before ++ x :: (between ++ y :: after))
    (hline : x.after.line = none) (hbetween : ∀ z ∈ between, ¬ z.Connects) : y.CutOff := by
  obtain ⟨es', c', t', hx⟩ := exists_course_of_append hnet h
  cases es' with
  | nil => cases hx
  | cons e es' =>
      obtain ⟨answer, c'', t'', signals, hcourse, -, -⟩ := course_cons hnet e es' c' t'
      rw [hcourse] at hx
      obtain ⟨rfl, hrest⟩ := List.cons.inj hx
      exact cutOff_of_line_none hnet hrest.symm hline hbetween

/-- The log of a course stays tidy. -/
theorem tidy_course (hnet : net.Exact) (hc : Afloat c t.log) :
    Tidy (t.log ++ (course net es c t).flatMap (·.signals)) := by
  induction es generalizing c t with
  | nil =>
      rw [course, List.flatMap_nil, List.append_nil]
      exact hc.tidy
  | cons e es ih =>
      obtain ⟨answer, c', t', signals, hcourse, hlog, hsettles⟩ := course_cons hnet e es c t
      rw [hcourse, List.flatMap_cons, ← List.append_assoc, ← hlog]
      refine ih ?_
      rw [hlog]
      exact hsettles.afloat hc

theorem told_course (net : Carrier (StateM S) L) (es : List Errand)
    (c : Connection (Numbered L)) (t : Tap S) :
    (course net es c t).map Episode.told = conduct net es c.plain t.state := by
  induction es generalizing c t with
  | nil => rfl
  | cons e es ih =>
      have hplain := Connection.run_errand_plain net c e t
      rw [conduct, hplain, course, List.map_cons, ih]
      rfl

/-- **A connection never gets out of step**, whatever it is used for and whatever comes back, and
what is found by listening is what happens where nobody listens. -/
theorem inStep_course (hnet : net.Exact) (peer : Peer) (config : ClientConfig) (s : S)
    (es : List Errand) :
    InStep (course net es { peer, config } { state := s })
      ∧ (course net es { peer, config } { state := s }).map Episode.told =
        conduct net es { peer, config } s := by
  refine ⟨⟨?_, ?_, ?_⟩, told_course net es _ _⟩
  · exact settled_course hnet rfl
  · intro before x between y after h hline hbetween
    exact cutOff_course hnet h hline hbetween
  · have hafloat : Afloat (L := L) { peer, config } [] := ⟨tidy_nil, fun l hl => nomatch hl⟩
    exact (tidy_course (t := { state := s }) hnet hafloat).ended

/-! ## A server that stops in the middle of a reply -/

theorem exact_carrier (patience : UInt64) : (Network.carrier patience).Exact := by
  intro l count n bytes n' h
  change n.receive patience.toNat l count = _ at h
  rw [Network.receive] at h
  split at h
  · cases h
  · split at h
    · next taken _ htake =>
      cases h
      exact (Line.received_take htake).2
    · split at h
      · cases h
      · cases h

/-- It accepts the key, refuses one request, and closes after half the code of the next reply. -/
def sampleScript : Script :=
  { reply := Wire.ofCommand .accept ++ Wire.ofCode .notFound ++ [0, 0, 0, 0] }

def sampleScripted : Network :=
  { hosts := [("alpha:2678", .scripted [sampleScript])], tree := { nodes := [] } }

def sampleErrands : List Errand :=
  [.connect, .request (.getattr "/f"), .request (.getattr "/f"), .request (.getattr "/f"), .beat]

theorem inStep_course_sample :
    (Network.carrier 1000).Exact
      ∧ InStep (course (Network.carrier 1000) sampleErrands
          { peer := ⟨"alpha", 2678, "key"⟩, config := { keyDir := "" } }
          { state := sampleScripted })
      ∧ (course (Network.carrier 1000) sampleErrands
          { peer := ⟨"alpha", 2678, "key"⟩, config := { keyDir := "" } }
          { state := sampleScripted }).map Episode.told =
        conduct (Network.carrier 1000) sampleErrands
          { peer := ⟨"alpha", 2678, "key"⟩, config := { keyDir := "" } } sampleScripted :=
  ⟨exact_carrier 1000, inStep_course (exact_carrier 1000) _ _ _ _⟩

set_option maxRecDepth 2000 in
example : conduct (Network.carrier 1000) sampleErrands
    { peer := ⟨"alpha", 2678, "key"⟩, config := { keyDir := "" } } sampleScripted =
    [⟨.connect, .ok ()⟩, ⟨.request (.getattr "/f"), .error .notFound⟩,
      ⟨.request (.getattr "/f"), .error .notConnected⟩,
      ⟨.request (.getattr "/f"), .error .notConnected⟩, ⟨.beat, false⟩] := by
  cbv

end UnionFS.Client
