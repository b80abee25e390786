import UnionFS.Proofs.Session.Waits
import UnionFS.Proofs.Wire.States

/-!
# Sessions that cannot be told apart

One session on two trees, with the same deeds of its client at the same times.  A `Likeness` says in
what the trees are alike and how what is sent may differ, and that serving a request goes by it.
Then whole sessions do: they come to the same phase, send what is related, and leave trees that are
alike (`agree_serveAll`, `Akin.meet`, `Akin.wait`).
-/

namespace UnionFS

open Dialogue Wire

/-- In what two runs of a session are alike, and what a run leaves as it is. -/
structure Likeness where
  /-- What is sent at once in the one, and in the other. -/
  said : Bytes → Bytes → Prop
  tree : Tree → Tree → Prop
  /-- Whatever tree is related to the one that a run finds stays related to it. -/
  kept : Tree → Tree → Prop
  /-- The exports that may be served. -/
  serves : Export → Prop
  same : ∀ b, said b b
  alike : ∀ e, serves e → ∀ c t t', tree t t' → Alike said tree (e.serve c) t (e.serve c) t'
  keeps : ∀ e, serves e → ∀ c t, (e.serve c).Keeps kept t

namespace Likeness

variable {L : Likeness} {e : Export} {r t t' : Tree} {α : Type}

/-- The dialogue goes by the likeness, also when others change the trees while it waits. -/
structure Suits (L : Likeness) (d : Dialogue Tree α) : Prop where
  alike : ∀ t t', L.tree t t' → Alike L.said L.tree d t d t'
  keeps : ∀ t, d.Keeps L.kept t

theorem suits_serve (he : L.serves e) (c : Command) : L.Suits (e.serve c) :=
  ⟨L.alike e he c, L.keeps e he c⟩

/-- What a dialogue has come to on trees that are alike. -/
structure Parallel (L : Likeness) (p p' : Progress Tree α) : Prop where
  pending : p.pending = p'.pending
  sent : Said L.said p.sent p'.sent
  unread : p.unread = p'.unread
  tree : L.tree p.state p'.state
  rest : L.Suits p.pending

theorem Suits.feed {d : Dialogue Tree α} (h : L.Suits d) (ht : L.tree t t') (input : Bytes) :
    L.Parallel (d.feed input t) (d.feed input t') := by
  obtain ⟨hsent, hunread, hpending, hstate, hrest⟩ := (h.alike t t' ht).feed input
  exact ⟨hpending, hsent, hunread, hstate, hrest, (h.keeps t).pending input⟩

/-- All that the session will do goes by the likeness. -/
def Fits (L : Likeness) (s : Session) : Prop :=
  match s.phase with
  | .authenticating pending => L.Suits pending ∧ ∀ e, L.serves e
  | .idle e | .half e => L.serves e
  | .busy e pending => L.serves e ∧ L.Suits pending
  | .closed _ => True

theorem fits_finish (s : Session) (now : Nat) : L.Fits (s.finish now) := trivial

theorem fits_await {phase : Phase} (h : ∀ s : Session, s.phase = phase → L.Fits s) (s : Session)
    (now : Nat) (unread : Bytes) (timeout : UInt64) : L.Fits (s.await now phase unread timeout) := by
  rw [Session.await]
  split
  · exact fits_finish s now
  · exact h _ rfl

theorem fits_of_phase {s s' : Session} (h : L.Fits s) (hphase : s'.phase = s.phase) : L.Fits s' := by
  rwa [Fits, hphase]

theorem fits_idle (he : L.serves e) (s : Session) (hphase : s.phase = .idle e) : L.Fits s := by
  rwa [Fits, hphase]

theorem fits_half (he : L.serves e) (s : Session) (hphase : s.phase = .half e) : L.Fits s := by
  rwa [Fits, hphase]

theorem fits_busy (he : L.serves e) {pending : Dialogue Tree Unit} (h : L.Suits pending)
    (s : Session) (hphase : s.phase = .busy e pending) : L.Fits s := by
  rw [Fits, hphase]
  exact ⟨he, h⟩

/-- The session does the same on both trees, and keeps the tree `r` on the first. -/
structure Agree (L : Likeness) (r : Tree) (A B : Reaction) : Prop where
  session : A.session = B.session
  sent : Said L.said A.sent B.sent
  tree : L.tree A.tree B.tree
  fits : L.Fits A.session
  kept : L.kept r A.tree

variable {A B : Reaction} {s : Session} {now : Nat} {input : Bytes}

theorem Agree.after (h : L.Agree r A B) {sent sent' : Bytes} (hsent : Said L.said sent sent') :
    L.Agree r (A.after sent) (B.after sent') :=
  ⟨h.session, hsent.append h.sent, h.tree, h.fits, h.kept⟩

/-- **What a session serves goes by the likeness**, whatever it is sent. -/
theorem agree_serveAll (he : L.serves e) (s : Session) (now : Nat) (input : Bytes)
    (ht : L.tree t t') (hr : L.kept r t) :
    L.Agree r (s.serveAll e now t input) (s.serveAll e now t' input) := by
  fun_induction s.serveAll e now t input generalizing t'
  case case1 s t =>
      rw [Session.serveAll]
      exact ⟨rfl, .nil, ht, fits_await (fits_idle he) .., hr⟩
  case case2 s t a =>
      rw [Session.serveAll]
      exact ⟨rfl, .nil, ht, fits_await (fits_half he) .., hr⟩
  case case3 s t a b rest hnone ih =>
      rw [Session.serveAll_unknown hnone]
      exact ih ht hr
  case case4 s t a b rest hstop =>
      rw [Session.serveAll_stop hstop]
      exact ⟨rfl, .nil, ht, fits_finish s now, hr⟩
  case case5 s t a b rest hcommand ih =>
      rw [Session.serveAll_heartbeat hcommand]
      exact (ih ht hr).after (.one (L.same _))
  case case6 s t a b rest command hstop hbeat hcommand p hdone ih =>
      have hsuits := L.suits_serve he command
      have hparallel := hsuits.feed ht rest
      have hdone' := hparallel.pending ▸ hdone
      rw [Session.serveAll_command hcommand hstop hbeat, Session.proceed, Session.takeUp, hdone']
      dsimp only
      rw [← hparallel.unread]
      exact (ih hparallel.tree ((hsuits.keeps t).feed rest hr)).after hparallel.sent
  case case7 s t a b rest command hstop hbeat hcommand p error hfailed =>
      have hsuits := L.suits_serve he command
      have hparallel := hsuits.feed ht rest
      have hfailed' := hparallel.pending ▸ hfailed
      rw [Session.serveAll_command hcommand hstop hbeat, Session.proceed, Session.takeUp, hfailed']
      exact ⟨rfl, hparallel.sent, hparallel.tree, fits_finish s now, (hsuits.keeps t).feed rest hr⟩
  case case8 s t a b rest command hstop hbeat hcommand p hwaits =>
      have hsuits := L.suits_serve he command
      have hparallel := hsuits.feed ht rest
      have hwaits' := hparallel.pending ▸ hwaits
      rw [Session.serveAll_command hcommand hstop hbeat, Session.proceed, Session.takeUp, hwaits']
      dsimp only
      rw [← hparallel.pending, ← hparallel.unread]
      exact ⟨rfl, hparallel.sent, hparallel.tree, fits_await (fits_busy he hparallel.rest) ..,
        (hsuits.keeps t).feed rest hr⟩

/-- **So does all that it does when something arrives.** -/
theorem Fits.resume (h : L.Fits s) (now : Nat) (input : Bytes) (ht : L.tree t t')
    (hr : L.kept r t) : L.Agree r (s.resume now t input) (s.resume now t' input) := by
  rw [Session.resume, Session.resume]
  cases hphase : s.phase with
  | closed time => exact ⟨rfl, .nil, ht, h, hr⟩
  | idle e | half e =>
      rw [Fits, hphase] at h
      exact agree_serveAll h s now input ht hr
  | authenticating pending =>
      rw [Fits, hphase] at h
      obtain ⟨hsuits, hall⟩ := h
      have hparallel := hsuits.feed ht input
      have hkept := (hsuits.keeps t).feed input hr
      dsimp only
      rw [← hparallel.pending, ← hparallel.unread]
      split
      · next e _ => exact (agree_serveAll (hall e) s now _ hparallel.tree hkept).after hparallel.sent
      · exact ⟨rfl, hparallel.sent, hparallel.tree, fits_finish s now, hkept⟩
      · split
        · exact ⟨rfl, hparallel.sent, hparallel.tree, fits_finish s now, hkept⟩
        · exact ⟨rfl, hparallel.sent, hparallel.tree, ⟨hparallel.rest, hall⟩, hkept⟩
  | busy e pending =>
      rw [Fits, hphase] at h
      obtain ⟨he, hsuits⟩ := h
      have hparallel := hsuits.feed ht input
      have hkept := (hsuits.keeps t).feed input hr
      dsimp only
      rw [← hparallel.pending, ← hparallel.unread]
      split
      · exact (agree_serveAll he s now _ hparallel.tree hkept).after hparallel.sent
      · exact ⟨rfl, hparallel.sent, hparallel.tree, fits_finish s now, hkept⟩
      · split
        · exact ⟨rfl, hparallel.sent, hparallel.tree, fits_finish s now, hkept⟩
        · exact ⟨rfl, hparallel.sent, hparallel.tree, ⟨he, hparallel.rest⟩, hkept⟩

theorem Fits.arrive (h : L.Fits s) (now : Nat) (bytes : Bytes) (ht : L.tree t t')
    (hr : L.kept r t) : L.Agree r (s.arrive now t bytes) (s.arrive now t' bytes) := by
  rw [Session.arrive, Session.arrive]
  split
  · exact ⟨rfl, .nil, ht, h, hr⟩
  · exact h.resume now _ ht hr

theorem Fits.hangUp (h : L.Fits s) (now : Nat) (ht : L.tree t t') (hr : L.kept r t) :
    L.Agree r (s.hangUp now t) (s.hangUp now t') :=
  (fits_of_phase h rfl : L.Fits { s with ended := true }).resume now s.unread ht hr

theorem Fits.runOut (h : L.Fits s) : L.Fits s.runOut := by
  rw [Session.runOut]
  split
  · exact h
  · next e hphase =>
    dsimp only
    split
    · exact fits_finish _ _
    · exact fits_of_phase h rfl
  · exact fits_finish s _

theorem Fits.pass (h : L.Fits s) (time : Nat) : L.Fits (s.pass time) :=
  Session.pass_of_runOut (fun _ hs => Fits.runOut hs) h time

/-! ## Courses -/

/-- The courses have come to the same session at the same time. -/
structure Akin (L : Likeness) (c c' : Course) : Prop where
  session : c.session = c'.session
  now : c.now = c'.now
  sent : Said L.said c.sent c'.sent
  tree : L.tree c.tree c'.tree
  fits : L.Fits c.session

namespace Akin

variable {c c' : Course}

/-- **The client does the same in both**, and what is kept stays related to the first tree. -/
theorem meet (h : L.Akin c c') (deed : Deed) (hr : L.kept r c.tree) :
    L.Akin (c.meet deed) (c'.meet deed) ∧ L.kept r (c.meet deed).tree := by
  cases deed with
  | send bytes =>
      have hagree := h.fits.arrive c.now bytes h.tree hr
      rw [Course.meet, Course.meet, ← h.session, ← h.now]
      exact ⟨⟨hagree.session, rfl, h.sent.append hagree.sent, hagree.tree, hagree.fits⟩, hagree.kept⟩
  | hangUp =>
      have hagree := h.fits.hangUp c.now h.tree hr
      rw [Course.meet, Course.meet, ← h.session, ← h.now]
      exact ⟨⟨hagree.session, rfl, h.sent.append hagree.sent, hagree.tree, hagree.fits⟩, hagree.kept⟩
  | nothing => exact ⟨⟨h.session, h.now, h.sent.append .nil, h.tree, h.fits⟩, hr⟩

theorem wait (h : L.Akin c c') (pause : Nat) : L.Akin (c.wait pause) (c'.wait pause) := by
  rw [Course.wait, Course.wait, ← h.session, ← h.now]
  exact ⟨rfl, rfl, h.sent, h.tree, h.fits.pass _⟩

end Akin

end Likeness
end UnionFS
