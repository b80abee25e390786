import UnionFS.Proofs.Network.Remote

/-!
# One write to a remote

One exchange of a write with a server whose stream may break anywhere.  It changes the server's tree
exactly if all of the opening and the data get through and the first of the two replies comes back
(`GetsThrough`): without that reply the client keeps the data to itself.  The second reply comes too
late to change anything but what the client learns.

* `tree_exchange_of_not`: a write that does not get through changes nothing;
* `exchange_of_getsThrough`: one that does is carried out, and the client learns of it only if the
  second reply comes back as well.
-/

namespace UnionFS

open Dialogue Wire Client

namespace Client

/-- A write after its opening: the data follow only if the first code is no refusal. -/
def finishWrite {σ : Type} (data : Bytes) : Dialogue σ (Outcome UInt64) := do
  let code ← readCode
  if code < 0 then return .error code
  else
    .say data
    unlessRefused readSize

theorem exchange_write (limits : Limits) (path : String) (data : Bytes) (offset : UInt64) :
    exchange (σ := Unit) limits (.write path data offset) =
      (do .say (opening (.write path data offset)); finishWrite data) := by
  show (Dialogue.say _ >>= fun _ => readReply limits _) = _
  simp only [readReply, unlessRefused, LawfulMonad.bind_assoc]
  refine congrArg _ (funext fun _ => congrArg _ (funext fun code => ?_))
  split <;> rfl

end Client

namespace Dialogue

variable {σ α β : Type}

/-- The dialogue says nothing, whatever it hears. -/
def Quiet : Dialogue σ α → Prop
  | done _ | fail _ => True
  | send b d => b = [] ∧ d.Quiet
  | receive _ d => ∀ b, (d b).Quiet
  | consult d => ∀ s, (d s).Quiet
  | commit _ d => d.Quiet

theorem Quiet.bind {d : Dialogue σ α} {k : α → Dialogue σ β} (h : d.Quiet)
    (hk : ∀ a, (k a).Quiet) : (d >>= k).Quiet := by
  show (d.bind k).Quiet
  induction d with
  | done a => exact hk a
  | fail e => trivial
  | send b d ih => exact ⟨h.1, ih h.2⟩
  | receive n d ih => exact fun b => ih b (h b)
  | consult d ih => exact fun s => ih s (h s)
  | commit s d ih => exact ih h

theorem quiet_readCode : Quiet (σ := σ) readCode := fun _ => trivial

theorem quiet_readSize : Quiet (σ := σ) readSize := fun _ => trivial

theorem quiet_unlessRefused {next : Dialogue σ α} (h : next.Quiet) :
    (unlessRefused next).Quiet := by
  refine quiet_readCode.bind fun code => ?_
  split
  · trivial
  · exact h.bind fun _ => trivial

end Dialogue

namespace Remote

variable {L α : Type} {e : Export} {r : Remote} {path : String} {data : Bytes} {offset : UInt64}

/-- The server waits for a command, and there is nothing on the way in either direction. -/
structure Resting (r : Remote) (e : Export) : Prop where
  session : ∃ s : Session, r.line.far = .session s ∧ s.Resting e
  arrived : r.line.arrived = []

theorem Resting.settled (h : r.Resting e) : r.Settled := by
  obtain ⟨s, hfar, hs⟩ := h.session
  intro s' hs' now
  rw [hfar] at hs'
  cases hs'
  rw [Session.hangUp, Session.resume, hs.phase, hs.unread]
  dsimp only
  rw [Session.serveAll]

/-- The remote after its session has heard some bytes. -/
def hear (r : Remote) (s : Session) (bytes : Bytes) : Remote :=
  { r with
    line := Line.react { r.line with sent := r.line.sent ++ bytes } (s.arrive r.clock r.tree bytes)
    tree := (s.arrive r.clock r.tree bytes).tree
    reaching := r.reaching - bytes.length }

theorem send_session {s : Session} (h : r.line.far = .session s) (bytes : Bytes) :
    r.send bytes =
      (if bytes.length ≤ r.reaching then .ok () else .error r.failure,
        r.hear s (bytes.take r.reaching)) := by
  have hleft : r.reaching - bytes.length = r.reaching - (bytes.take r.reaching).length := by
    rw [List.length_take]
    omega
  rw [Remote.send, Line.deliver_session h, hear, ← hleft]

theorem send_of_le {s : Session} (h : r.line.far = .session s) {bytes : Bytes}
    (hle : bytes.length ≤ r.reaching) : r.send bytes = (.ok (), r.hear s bytes) := by
  rw [send_session h, if_pos hle, List.take_of_length_le hle]

theorem send_of_lt {s : Session} (h : r.line.far = .session s) {bytes : Bytes}
    (hlt : r.reaching < bytes.length) :
    r.send bytes = (.error r.failure, r.hear s (bytes.take r.reaching)) := by
  rw [send_session h, if_neg (Nat.not_le.mpr hlt)]

theorem tree_send_nil (r : Remote) : (r.send []).2.tree = r.tree := by
  cases hfar : r.line.far with
  | scripted script => exact (Line.deliver_scripted hfar r.clock r.tree _).2
  | session s =>
      rw [send_session hfar, List.take_nil]
      rfl

/-- **A client that says nothing changes nothing.** -/
theorem tree_converse_quiet {d : Dialogue Unit α} (h : d.Quiet) (l : L) (r : Remote) :
    (carrier.converse l d r).2.tree = r.tree := by
  induction d generalizing r with
  | done | fail => rfl
  | send b d ih =>
    obtain ⟨rfl, hd⟩ := h
    have hsend := tree_send_nil r
    rw [show Dialogue.send [] d = (Dialogue.say [] >>= fun _ => d) from rfl, converse_say_bind]
    generalize r.send [] = x at hsend ⊢
    rcases x with ⟨_ | _, r'⟩
    · exact hsend
    · exact (ih hd r').trans hsend
  | receive n d ih =>
    have hreceive := tree_receive r n
    rw [converse_receive]
    generalize r.receive n = x at hreceive ⊢
    rcases x with ⟨_ | bytes, r'⟩
    · exact hreceive
    · exact (ih bytes (h bytes) r').trans hreceive
  | consult d ih => exact ih () (h ()) r
  | commit s d ih => exact ih h r

theorem quiet_finishWrite : Quiet (σ := Unit) (finishWrite []) := by
  refine quiet_readCode.bind fun code => ?_
  split
  · trivial
  · exact ⟨rfl, quiet_unlessRefused quiet_readSize⟩

/-! ## The exchange -/

/-- All that a write needs to be carried out on `q` gets through. -/
structure GetsThrough (r : Remote) (e : Export) (path : String) (data : Bytes) (offset : UInt64)
    (q : Path) : Prop where
  fits : (Utf8.encode path).length ≤ e.maxPath.toNat
  opened : e.openForWrite r.tree path (UInt64.ofNat data.length) = .ok q
  reaching : (opening (.write path data offset)).length + data.length ≤ r.reaching
  returning : (ofCode 0).length ≤ r.returning

/-- A code that was not sent is waited for in vain. -/
theorem converse_readCode_of_nothing (h : r.line.arrived = []) (l : L)
    (k : Code → Dialogue Unit α) :
    carrier.converse l (readCode >>= k) r = (.error r.failure, r) := by
  show carrier.converse l (.receive 8 _) r = _
  rw [converse_receive, receive_of_nothing h (by omega)]

/-- What is left of a write whose opening gets through. -/
theorem exchange_of_le {s : Session} (hfar : r.line.far = .session s) (l : L) (limits : Limits)
    (hreach : (opening (.write path data offset)).length ≤ r.reaching) :
    carrier.converse l (exchange limits (.write path data offset)) r =
      carrier.converse l (finishWrite data) (r.hear s (opening (.write path data offset))) := by
  rw [exchange_write, converse_say_bind, send_of_le hfar hreach]

/-- An opening that is cut, or that the server does not take, changes nothing. -/
theorem tree_exchange_of_cut (h : r.Resting e) (l : L) (limits : Limits)
    (hlen : (Utf8.encode path).length < 2 ^ 64)
    (hcut : r.reaching < (opening (.write path data offset)).length
      ∨ e.maxPath.toNat < (Utf8.encode path).length) :
    (carrier.converse l (exchange limits (.write path data offset)) r).2.tree = r.tree := by
  obtain ⟨s, hfar, hs⟩ := h.session
  by_cases hshort : r.reaching < (opening (.write path data offset)).length
  · -- the client finds out at once that not all of it goes through
    have hpart := List.take_prefix r.reaching (opening (.write path data offset))
    rw [exchange_write, converse_say_bind, send_of_lt hfar hshort]
    exact (Session.arrive_part hs r.clock hlen hpart (.inl (by rw [List.length_take]; omega))).1
  · -- the server does not answer, and the client waits for the first code
    obtain ⟨htree, hsent⟩ := Session.arrive_part (t := r.tree) hs r.clock hlen
      (List.prefix_refl _) (.inr (hcut.resolve_left hshort))
    have hnothing : (r.hear s (opening (.write path data offset))).line.arrived = [] := by
      show r.line.arrived ++ _ = []
      rw [h.arrived, hsent]
      rfl
    rw [exchange_of_le hfar l limits (Nat.not_lt.mp hshort), finishWrite,
      converse_readCode_of_nothing hnothing]
    exact htree

/-- Refused, the client keeps the data to itself. -/
theorem tree_finishWrite_of_refused {c : Code} (hc : c < 0) (h : r.line.arrived = ofCode c)
    (l : L) : (carrier.converse l (finishWrite data) r).2.tree = r.tree := by
  have h' : r.line.arrived = ofCode c ++ [] := by rw [h, List.append_nil]
  by_cases hback : (ofCode c).length ≤ r.returning
  · rw [finishWrite, converse_reads (reads_code c) l _ h' hback, if_pos hc]
    rfl
  · obtain ⟨r', hr', htree⟩ := converse_reads_short (reads_code c) l _ h' (Nat.not_le.mp hback)
    rw [finishWrite, hr']
    exact htree

/-- The server has opened a write's file and said so, and waits for the data. -/
structure Taking (r : Remote) (e : Export) (data : Bytes) (offset : UInt64) (q : Path) : Prop where
  session : ∃ s : Session, r.line.far = .session s ∧ s.Taking e data offset q
  arrived : r.line.arrived = ofCode 0
  some : data ≠ []
  fits : data.length ≤ e.maxIo.toNat

variable {q : Path}

/-- Without the first reply, or with only a part of the data there, nothing is changed. -/
theorem tree_finishWrite_of_not (h : r.Taking e data offset q) (l : L)
    (hnot : ¬ (data.length ≤ r.reaching ∧ (ofCode 0).length ≤ r.returning)) :
    (carrier.converse l (finishWrite data) r).2.tree = r.tree := by
  have harrived : r.line.arrived = ofCode 0 ++ [] := by rw [h.arrived, List.append_nil]
  obtain ⟨s, hfar, hs⟩ := h.session
  by_cases hback : (ofCode 0).length ≤ r.returning
  · have hshort : r.reaching < data.length := by
      by_contra hle
      exact hnot ⟨Nat.not_lt.mp hle, hback⟩
    have hpart : (data.take r.reaching).length < data.length := by
      rw [List.length_take]
      omega
    rw [finishWrite, converse_reads (reads_code 0) l _ harrived hback, if_neg (by decide),
      converse_say_bind, send_of_lt (r := r.taken _ []) hfar hshort]
    exact Session.arrive_dataPart hs r.clock r.tree h.fits hpart
  · -- the client does not learn that the file is open, and sends no data
    obtain ⟨r', hr', htree⟩ :=
      converse_reads_short (reads_code 0) l _ harrived (Nat.not_le.mp hback)
    rw [finishWrite, hr']
    exact htree

/-- With the first reply and all data there, the write is carried out.  The client learns of it if
the second reply comes back too. -/
theorem finishWrite_of_reaching (h : r.Taking e data offset q) (l : L)
    (hreach : data.length ≤ r.reaching) (hback : (ofCode 0).length ≤ r.returning) :
    ∃ r', r'.tree = (Export.writeAt q offset data r.tree).2
      ∧ carrier.converse l (finishWrite data) r =
        (if (ofCode 0).length + (Export.replySize (Export.writeAt q offset data r.tree).1).length
            ≤ r.returning then
          .ok (Export.writeAt q offset data r.tree).1 else .error r.failure, r') := by
  have harrived : r.line.arrived = ofCode 0 ++ [] := by rw [h.arrived, List.append_nil]
  obtain ⟨s, hfar, hs⟩ := h.session
  obtain ⟨s', -, harrive⟩ := Session.arrive_data hs r.clock r.tree h.some h.fits
  have htree := congrArg Reaction.tree harrive
  have hsent := congrArg Reaction.sent harrive
  have hreads := reads_replySize (σ := Unit) (Export.refuses_writeAt r.tree q offset data)
  have hend : unlessRefused (σ := Unit) readSize >>= Dialogue.done = unlessRefused readSize :=
    Dialogue.bind_done _
  have hreply : ((r.taken (ofCode 0).length []).hear s data).line.arrived =
      Export.replySize (Export.writeAt q offset data r.tree).1 ++ [] := by
    show [] ++ (s.arrive r.clock r.tree data).sent = _ ++ []
    rw [hsent, List.nil_append, List.append_nil]
  rw [finishWrite, converse_reads (reads_code 0) l _ harrived hback, if_neg (by decide),
    converse_say_bind, send_of_le (r := r.taken _ []) hfar hreach, ← hend]
  dsimp only
  by_cases hsecond : (ofCode 0).length
      + (Export.replySize (Export.writeAt q offset data r.tree).1).length ≤ r.returning
  · rw [if_pos hsecond, converse_reads hreads l _ hreply (by simp only [hear, taken]; omega)]
    exact ⟨_, htree, rfl⟩
  · obtain ⟨r', hr', hsame⟩ := converse_reads_short hreads l Dialogue.done hreply
      (by simp only [hear, taken]; omega)
    rw [if_neg hsecond]
    exact ⟨r', hsame.trans htree, hr'⟩

/-- A server that waited for a command takes a write whose opening gets through. -/
theorem Resting.taking {s : Session} (h : r.Resting e) (offset : UInt64) (hs : s.Resting e)
    (hp : (Utf8.encode path).length ≤ e.maxPath.toNat) (hd : data ≠ [])
    (hdata : data.length < 2 ^ 64)
    (ho : e.openForWrite r.tree path (UInt64.ofNat data.length) = .ok q) :
    (r.hear s (opening (.write path data offset))).tree = r.tree
      ∧ (r.hear s (opening (.write path data offset))).Taking e data offset q := by
  have hmax := Export.length_le_of_openForWrite hdata ho
  obtain ⟨s', hs', harrive⟩ := Session.arrive_opened hs r.clock offset hp hd hmax ho
  refine ⟨by rw [hear, harrive], ⟨s', by rw [hear, harrive]; rfl, hs'⟩, ?_, hd, hmax⟩
  rw [hear, harrive]
  show r.line.arrived ++ _ = _
  rw [h.arrived, List.nil_append]

/-- **A write that does not get through changes nothing.** -/
theorem tree_exchange_of_not (h : r.Resting e) (l : L) (limits : Limits)
    (hlen : (Utf8.encode path).length < 2 ^ 64) (hdata : data.length < 2 ^ 64)
    (hnot : data = [] ∨ ¬ ∃ q, r.GetsThrough e path data offset q) :
    (carrier.converse l (exchange limits (.write path data offset)) r).2.tree = r.tree := by
  by_cases hcut : r.reaching < (opening (.write path data offset)).length
      ∨ e.maxPath.toNat < (Utf8.encode path).length
  · exact tree_exchange_of_cut h l limits hlen hcut
  rw [not_or, Nat.not_lt, Nat.not_lt] at hcut
  obtain ⟨hreach, hp⟩ := hcut
  obtain ⟨s, hfar, hs⟩ := h.session
  rw [exchange_of_le hfar l limits hreach]
  cases ho : e.openForWrite r.tree path (UInt64.ofNat data.length) with
  | error c =>
      obtain ⟨s', -, harrive⟩ := Session.arrive_refused hs r.clock offset hp ho
      have htree := congrArg Reaction.tree harrive
      refine (tree_finishWrite_of_refused (e.refuses_openForWrite _ _ _ c ho) ?_ l).trans htree
      show r.line.arrived ++ _ = _
      rw [h.arrived, congrArg Reaction.sent harrive, List.nil_append]
  | ok q =>
      by_cases hd : data = []
      · -- the server is done with the opening, and what the client still says is nothing
        subst hd
        obtain ⟨s', -, harrive⟩ := Session.arrive_opened_nil hs r.clock offset hp ho
        exact (tree_converse_quiet quiet_finishWrite l _).trans (congrArg Reaction.tree harrive)
      · obtain ⟨htree, htaking⟩ := h.taking offset hs hp hd hdata ho
        refine (tree_finishWrite_of_not htaking l ?_).trans htree
        rintro ⟨hr, hback⟩
        have hr : data.length ≤ r.reaching - (opening (.write path data offset)).length := hr
        exact hnot.resolve_left hd ⟨q, hp, ho, by omega, hback⟩

/-- **A write that gets through is carried out**, and the client learns of it if and only if the
second reply comes back too. -/
theorem exchange_of_getsThrough (h : r.Resting e) (l : L) (limits : Limits)
    (hd : data ≠ []) (hdata : data.length < 2 ^ 64) (hr : r.GetsThrough e path data offset q) :
    ∃ r', r'.tree = (Export.writeAt q offset data r.tree).2
      ∧ carrier.converse l (exchange limits (.write path data offset)) r =
        (if (ofCode 0).length + (Export.replySize (Export.writeAt q offset data r.tree).1).length
            ≤ r.returning then
          .ok (Export.writeAt q offset data r.tree).1 else .error r.failure, r') := by
  obtain ⟨s, hfar, hs⟩ := h.session
  obtain ⟨hp, ho, hreach, hback⟩ := hr
  obtain ⟨htree, htaking⟩ := h.taking offset hs hp hd hdata ho
  obtain ⟨r', htree', hr'⟩ := finishWrite_of_reaching htaking l
    (show data.length ≤ r.reaching - (opening (.write path data offset)).length by omega) hback
  rw [htree] at htree' hr'
  exact ⟨r', htree', (exchange_of_le hfar l limits (by omega)).trans hr'⟩

/-- The write is carried out, changes the tree, and its second reply does not come back. -/
def LosesReply (r : Remote) (e : Export) (path : String) (data : Bytes) (offset : UInt64) : Prop :=
  ∃ q, r.GetsThrough e path data offset q
    ∧ (Export.writeAt q offset data r.tree).2 ≠ r.tree
    ∧ r.returning < (ofCode 0).length + (Export.replySize (.ok (UInt64.ofNat data.length))).length

theorem writeAt_of_changed (h : (Export.writeAt q offset data r.tree).2 ≠ r.tree) :
    (Export.writeAt q offset data r.tree).1 = .ok (UInt64.ofNat data.length) := by
  rcases Export.writeAt_eq_or q offset data r.tree with hok | ⟨_, hsame⟩
  · exact hok
  · exact absurd hsame h

/-- **A write changes the tree without the client learning of it exactly if it loses its reply.** -/
theorem exchange_losesReply_iff (h : r.Resting e) (l : L) (limits : Limits) (offset : UInt64)
    (hlen : (Utf8.encode path).length < 2 ^ 64) (hdata : data.length < 2 ^ 64) :
    ((∀ n, (carrier.converse l (exchange limits (.write path data offset)) r).1 ≠ .ok (.ok n))
      ∧ (carrier.converse l (exchange limits (.write path data offset)) r).2.tree ≠ r.tree) ↔
    r.LosesReply e path data offset := by
  constructor
  · rintro ⟨hfails, hchanged⟩
    by_cases hnot : data = [] ∨ ¬ ∃ q, r.GetsThrough e path data offset q
    · exact absurd (tree_exchange_of_not h l limits hlen hdata hnot) hchanged
    rw [not_or, Classical.not_not] at hnot
    obtain ⟨hd, q, hthrough⟩ := hnot
    obtain ⟨r', htree, hr'⟩ := exchange_of_getsThrough h l limits hd hdata hthrough
    rw [hr'] at hfails hchanged
    have hwritten := htree ▸ hchanged
    rw [writeAt_of_changed hwritten] at hfails
    -- with the second reply the client would have had its answer
    have hlost : ¬ (ofCode 0).length
        + (Export.replySize (.ok (UInt64.ofNat data.length))).length ≤ r.returning := by
      intro hback
      exact hfails (UInt64.ofNat data.length) (if_pos hback)
    exact ⟨q, hthrough, hwritten, Nat.not_le.mp hlost⟩
  · rintro ⟨q, hthrough, hwritten, hback⟩
    have hd : data ≠ [] := by
      rintro rfl
      exact hwritten (Export.writeAt_nil q offset r.tree)
    obtain ⟨r', htree, hr'⟩ := exchange_of_getsThrough h l limits hd hdata hthrough
    rw [writeAt_of_changed hwritten, if_neg (Nat.not_le.mpr hback)] at hr'
    rw [hr']
    exact ⟨nofun, htree ▸ hwritten⟩

end Remote
end UnionFS
