import UnionFS.Proofs.Client.Apart
import UnionFS.Proofs.Client.Replies
import UnionFS.Proofs.Plan

/-!
# Short reads

A read in pieces may end with less than was asked for.  How it ended shows in its last exchange:
either less came than that exchange asked for, so that the file ends there; or it failed, and what
had been read before was given as if the file ended there; or no offset leads to what was wanted
next (`short_read_iff`).  So a short read alone does not tell that a file is at its end
(`not_always_end_of_file`).

What carries the proof is what is known between two exchanges: so far every one of them brought all
that it asked for, and something is left to ask (`Underway`).
-/

namespace UnionFS

namespace Client

/-- An attempt at an exchange: what was asked, and what came of it. -/
abbrev Attempt := (q : Request) × Outcome q.Answer

namespace Attempt

/-- Less was read than was asked for. -/
def IsShort : Attempt → Prop
  | ⟨.read _ want _, .ok chunk⟩ => chunk.length < want.toNat
  | _ => False

/-- The server has refused, or the stream has failed. -/
def Failed : Attempt → Prop
  | ⟨_, .error _⟩ => True
  | _ => False

/-- All was read that was asked for; more was wanted up to this position, but no offset leads there.
-/
def EndsRange (stop : Nat) : Attempt → Prop
  | ⟨.read _ want position, .ok chunk⟩ => want.toNat ≤ chunk.length
      ∧ offsetEnd ≤ position.toNat + chunk.length ∧ position.toNat + chunk.length < stop
  | _ => False

end Attempt

/-- The last exchange is why less was read than was wanted. -/
def CutShort (stop : Nat) (exchanges : List Attempt) : Prop :=
  ∃ x, exchanges.getLast? = some x ∧ (x.IsShort ∨ x.Failed ∨ x.EndsRange stop)

variable {S : Type} {answer : (q : Request) → S → Outcome q.Answer × S} {path : String}
  {size offset limit : Nat} {done : List Attempt} {data chunk out : Bytes} {stop : Nat}
  {x : Attempt}

/-! ## The steps of a read -/

/-- What is asked next, of a read that has come so far. -/
abbrev nextPiece (path : String) (size offset limit : Nat) (data : Bytes) : Request :=
  .read path (UInt64.ofNat (min (size - data.length) limit)) (UInt64.ofNat (offset + data.length))

/-- Where no offset leads on, no more is asked. -/
theorem readOn_of_past {s : S} (hend : offsetEnd ≤ offset + data.length) :
    (readOn path size offset limit data).outcome answer s = (.ok data, s)
      ∧ (readOn path size offset limit data).transcript answer s = [] := by
  rw [readOn, if_pos hend]
  exact ⟨rfl, rfl⟩

/-- **A piece that fails ends the read**, which gives what came before it, if anything did. -/
theorem readOn_of_error {s s' : S} {code : Code} (hposition : offset + data.length < offsetEnd)
    (herror : answer (nextPiece path size offset limit data) s = (.error code, s')) :
    (readOn path size offset limit data).outcome answer s =
        (if data.isEmpty then .error code else .ok data, s')
      ∧ (readOn path size offset limit data).transcript answer s =
        [⟨nextPiece path size offset limit data, .error code⟩] := by
  rw [readOn, if_neg (Nat.not_le.mpr hposition), Plan.outcome, Plan.transcript, herror]
  exact ⟨rfl, rfl⟩

/-- A piece that comes short, or after which nothing is left to ask, is the last. -/
theorem readOn_of_last {s s' : S} (hposition : offset + data.length < offsetEnd)
    (hchunk : answer (nextPiece path size offset limit data) s = (.ok chunk, s'))
    (hlast : chunk.length < min (size - data.length) limit ∨ size ≤ (data ++ chunk).length
      ∨ chunk = []) :
    (readOn path size offset limit data).outcome answer s = (.ok (data ++ chunk), s')
      ∧ (readOn path size offset limit data).transcript answer s =
        [⟨nextPiece path size offset limit data, .ok chunk⟩] := by
  rw [readOn, if_neg (Nat.not_le.mpr hposition), Plan.outcome, Plan.transcript, hchunk]
  dsimp only
  rw [dif_pos hlast]
  exact ⟨rfl, rfl⟩

/-- After a piece that brings all that it asks for the read goes on, if something is left to ask. -/
theorem readOn_of_whole {s s' : S} (hposition : offset + data.length < offsetEnd)
    (hchunk : answer (nextPiece path size offset limit data) s = (.ok chunk, s'))
    (hgoes : ¬ (chunk.length < min (size - data.length) limit ∨ size ≤ (data ++ chunk).length
      ∨ chunk = [])) :
    (readOn path size offset limit data).outcome answer s =
        (readOn path size offset limit (data ++ chunk)).outcome answer s'
      ∧ (readOn path size offset limit data).transcript answer s =
        ⟨nextPiece path size offset limit data, .ok chunk⟩
          :: (readOn path size offset limit (data ++ chunk)).transcript answer s' := by
  rw [readOn, if_neg (Nat.not_le.mpr hposition), Plan.outcome, Plan.transcript, hchunk]
  dsimp only
  rw [dif_neg hgoes]
  exact ⟨rfl, rfl⟩

/-! ## How a read ends -/

/-- Where a read stands between two exchanges: none was made, or the last one brought all that it
asked for and something is left to ask. -/
inductive Underway (size offset : Nat) : List Attempt → Bytes → Prop
  | start : offset < offsetEnd → Underway size offset [] []
  | full {done : List Attempt} {data chunk : Bytes} {path : String} {want position : UInt64} :
    done.getLast? = some ⟨.read path want position, .ok chunk⟩ → want.toNat ≤ chunk.length →
    position.toNat + chunk.length = offset + data.length → data ≠ [] → data.length < size →
    Underway size offset done data

theorem cutShort_concat :
    CutShort stop (done ++ [x]) ↔ x.IsShort ∨ x.Failed ∨ x.EndsRange stop := by
  rw [CutShort, List.getLast?_concat]
  constructor
  · rintro ⟨y, hy, h⟩
    obtain rfl := Option.some.inj hy
    exact h
  · intro h
    exact ⟨x, rfl, h⟩

/-- Where no offset leads on, less was read than was wanted. -/
theorem Underway.cutShort (h : Underway size offset done data)
    (hend : offsetEnd ≤ offset + data.length) :
    data.length < size ∧ CutShort (offset + size) done := by
  cases h with
  | start hoffset => exact absurd hend (Nat.not_le.mpr hoffset)
  | full hlast hfull hposition hne hless =>
      refine ⟨hless, _, hlast, .inr (.inr ⟨hfull, ?_, ?_⟩)⟩
      · rw [hposition]
        exact hend
      · rw [hposition]
        omega

theorem Underway.length_le (h : Underway size offset done data) : data.length ≤ size := by
  cases h with
  | start => exact Nat.zero_le size
  | full _ _ _ _ hless => exact Nat.le_of_lt hless

/-- After an error the read is given as it stands only if something had been read. -/
theorem Underway.length_lt_of_ne (h : Underway size offset done data) (hne : data ≠ []) :
    data.length < size := by
  cases h with
  | start => exact absurd rfl hne
  | full _ _ _ _ hless => exact hless

/-- After the last piece, less was read than was wanted exactly if that piece came short, or was one
that no offset leads on from. -/
theorem short_iff_last {want position : UInt64} (hlimit : 0 < limit)
    (hwant : want.toNat = min (size - data.length) limit)
    (hposition : position.toNat = offset + data.length) (hle : data.length ≤ size)
    (hlast : chunk.length < want.toNat ∨ size ≤ (data ++ chunk).length ∨ chunk = []) :
    (data ++ chunk).length < size ↔
      CutShort (offset + size) (done ++ [⟨.read path want position, .ok chunk⟩]) := by
  rw [cutShort_concat]
  show _ ↔ chunk.length < want.toNat ∨ False ∨ want.toNat ≤ chunk.length
    ∧ offsetEnd ≤ position.toNat + chunk.length ∧ position.toNat + chunk.length < offset + size
  rw [List.length_append] at hlast ⊢
  constructor
  · intro hless
    rcases hlast with hshort | hfull | hnone
    · exact .inl hshort
    · exact absurd hless (Nat.not_lt.mpr hfull)
    · -- nothing came although something was asked for
      rw [hnone, List.length_nil] at hless ⊢
      exact .inl (by omega)
  · rintro (hshort | hno | ⟨-, -, hstop⟩)
    · omega
    · exact hno.elim
    · omega

/-- With one more piece that came whole, the read is still under way. -/
theorem Underway.concat {want position : UInt64}
    (hposition : position.toNat = offset + data.length)
    (hgoes : ¬ (chunk.length < want.toNat ∨ size ≤ (data ++ chunk).length ∨ chunk = [])) :
    Underway size offset (done ++ [⟨.read path want position, .ok chunk⟩]) (data ++ chunk) := by
  obtain ⟨hfull, hmore⟩ := not_or.mp hgoes
  obtain ⟨hless, hne⟩ := not_or.mp hmore
  refine .full List.getLast?_concat (Nat.not_lt.mp hfull) ?_ ?_ (Nat.not_le.mp hless)
  · rw [hposition, List.length_append, Nat.add_assoc]
  · intro hnil
    exact hne (List.append_eq_nil_iff.mp hnil).2

/-- From wherever the read stands, how it ends shows in its last exchange. -/
theorem short_iff_readOn {s : S} (hlimit : 0 < limit) (hlimit' : limit < 2 ^ 64)
    (h : Underway size offset done data)
    (hok : ((readOn path size offset limit data).outcome answer s).1 = .ok out) :
    out.length < size ↔
      CutShort (offset + size)
        (done ++ (readOn path size offset limit data).transcript answer s) := by
  induction data using readOn.induct path size offset limit generalizing done s
  case case1 data position hend =>
      obtain ⟨houtcome, htranscript⟩ := readOn_of_past hend
      rw [houtcome] at hok
      cases hok
      rw [htranscript, List.append_nil]
      exact iff_of_true (h.cutShort hend).1 (h.cutShort hend).2
  case case2 data want position hend ih =>
      have hbelow : offset + data.length < offsetEnd := Nat.not_le.mp hend
      have hposition : (UInt64.ofNat (offset + data.length)).toNat = offset + data.length :=
        UInt64.toNat_ofNat_of_lt' hbelow
      have hwant : (UInt64.ofNat (min (size - data.length) limit)).toNat =
          min (size - data.length) limit :=
        UInt64.toNat_ofNat_of_lt' (Nat.lt_of_le_of_lt (Nat.min_le_right _ _) hlimit')
      rcases hanswer : answer (nextPiece path size offset limit data) s with ⟨code | chunk, s'⟩
      · obtain ⟨houtcome, htranscript⟩ := readOn_of_error hbelow hanswer
        rw [houtcome] at hok
        rw [htranscript, cutShort_concat]
        refine iff_of_true ?_ (.inr (.inl trivial))
        by_cases hnil : data.isEmpty = true
        · rw [if_pos hnil] at hok
          cases hok
        · rw [if_neg hnil] at hok
          cases hok
          exact h.length_lt_of_ne fun hnil' => hnil (List.isEmpty_iff.mpr hnil')
      · by_cases hlast : chunk.length < min (size - data.length) limit
          ∨ size ≤ (data ++ chunk).length ∨ chunk = []
        · obtain ⟨houtcome, htranscript⟩ := readOn_of_last hbelow hanswer hlast
          rw [houtcome] at hok
          cases hok
          rw [htranscript]
          exact short_iff_last hlimit hwant hposition h.length_le (by rwa [hwant])
        · obtain ⟨houtcome, htranscript⟩ := readOn_of_whole hbelow hanswer hlast
          have hunder : Underway size offset
              (done ++ [⟨nextPiece path size offset limit data, .ok chunk⟩]) (data ++ chunk) :=
            .concat hposition (by rwa [hwant])
          rw [houtcome] at hok
          have hlater := ih chunk hlast hunder hok
          rwa [List.append_assoc, List.singleton_append, ← htranscript] at hlater

namespace Connection

variable {L α : Type}

/-- One exchange, as an answer of the connection and its network. -/
def answerOn (net : Carrier (StateM S) L) (limits : Limits) (q : Request) (x : Connection L × S) :
    Outcome q.Answer × (Connection L × S) :=
  let y := single net limits q x.1 x.2
  (y.1.1, (y.1.2, y.2))

/-- The exchanges of a request, in order.  Too long a path is refused without any. -/
def exchanges (net : Carrier (StateM S) L) (c : Connection L) (r : Request) (s : S) :
    List Attempt :=
  if c.config.maxPath.toNat < (Utf8.encode r.path).length then []
  else (split c.config.maxIo r).transcript (answerOn net c.config.limits) (c, s)

theorem run_single (net : Carrier (StateM S) L) (limits : Limits) (p : Exchanges α)
    (c : Connection L) (s : S) : p.run (single net limits) c s =
      (let x := p.outcome (answerOn net limits) (c, s)
       ((x.1, x.2.1), x.2.2)) := by
  induction p generalizing c s with
  | done a => rfl
  | ask q next ih => exact ih _ _ _

/-- **A short read ends with an exchange that came short, with one that failed, or where no offset
leads on.**  Only the first of these is the end of the file. -/
theorem short_read_iff (net : Carrier (StateM S) L) (c : Connection L) (s : S) {path : String}
    {size offset : UInt64} {data : Bytes} (hlimit : 0 < c.config.maxIo)
    (hok : (c.request net (.read path size offset) s).1.1 = .ok data) :
    data.length < size.toNat ↔
      ∃ x, (c.exchanges net (.read path size offset) s).getLast? = some x
        ∧ (x.IsShort ∨ x.Failed ∨ x.EndsRange (offset.toNat + size.toNat)) := by
  rw [request_eq] at hok
  rw [exchanges]
  by_cases hpath : c.config.maxPath.toNat <
      (Utf8.encode (Request.read path size offset).path).length
  · rw [if_pos hpath] at hok
    cases hok
  · rw [if_neg hpath] at hok ⊢
    rw [run_single] at hok
    exact short_iff_readOn (UInt64.lt_iff_toNat_lt.mp hlimit) c.config.maxIo.toNat_lt
      (.start offset.toNat_lt) hok

/-! A server that gives two bytes and then refuses, to a client that takes two bytes at once. -/

/-- A stream that brings the bytes of its state one after another, whatever is sent on it. -/
def recorded : Carrier (StateM Bytes) Unit where
  dial _ := fun bytes => (.ok (), bytes)
  send _ _ := fun bytes => (.ok (), bytes)
  receive _ count := fun bytes =>
    if count ≤ bytes.length then (.ok (bytes.take count), bytes.drop count)
    else (.error .closed, [])
  shutdown _ := fun bytes => (.ok (), bytes)
  drop _ := fun bytes => ((), bytes)

theorem converse_recorded {d : Dialogue Unit α} {b more : Bytes} {a : α}
    (h : Dialogue.Reads d b a) : recorded.converse () d (b ++ more) = (.ok a, more) := by
  induction h with
  | done a => rfl
  | @receive rest b b' a _ ih =>
    have hreceive : recorded.receive () b.length (b ++ b' ++ more) = (.ok b, b' ++ more) := by
      have hlen : b.length ≤ (b ++ b' ++ more).length := by
        rw [List.append_assoc, List.length_append]
        exact Nat.le_add_right _ _
      refine (if_pos hlen).trans ?_
      rw [List.append_assoc, List.take_left, List.drop_left]
    rw [Carrier.converse_receive, hreceive]
    exact ih

theorem answerOn_recorded {limits : Limits} {r : Request} {b more : Bytes} {o : Outcome r.Answer}
    {c : Connection Unit} (hline : c.line = some ())
    (h : Dialogue.Reads (σ := Unit) (readReply limits r) b o) :
    answerOn recorded limits r (c, b ++ more) = (o, (c, more)) := by
  have hconverse : recorded.converse () (exchange limits r) (b ++ more) = (.ok o, more) := by
    show recorded.converse () (.send (opening r) (readReply limits r)) (b ++ more) = _
    rw [Carrier.converse_send]
    exact converse_recorded h
  rw [answerOn, single, transact_eq hline, hconverse]

def sampleReader : Connection Unit :=
  { peer := ⟨"alpha", 2678, "key"⟩, config := { keyDir := "", maxIo := 2 }
    line := some (), connected := true }

def sampleReplies : Bytes := Export.replyData (.ok [1, 2]) ++ Export.replyData (.error (-5))

/-- Of two pieces the second is refused. -/
theorem readOn_sample {s s' s'' : S}
    (hfirst : answer (nextPiece "/f" 4 0 2 []) s = (.ok [1, 2], s'))
    (hsecond : answer (nextPiece "/f" 4 0 2 [1, 2]) s' = (.error (-5), s'')) :
    (readOn "/f" 4 0 2 []).outcome answer s = (.ok [1, 2], s'')
      ∧ (readOn "/f" 4 0 2 []).transcript answer s =
        [⟨.read "/f" 2 0, .ok [1, 2]⟩, ⟨.read "/f" 2 2, .error (-5)⟩] := by
  obtain ⟨houtcome, htranscript⟩ := readOn_of_whole (by decide) hfirst (by decide)
  obtain ⟨houtcome', htranscript'⟩ := readOn_of_error (by decide) hsecond
  constructor
  · exact houtcome.trans houtcome'
  · exact htranscript.trans (congrArg _ htranscript')

theorem answers_sample :
    let answer := answerOn recorded sampleReader.config.limits
    answer (nextPiece "/f" 4 0 2 []) (sampleReader, sampleReplies) =
        (.ok [1, 2], (sampleReader, Export.replyData (.error (-5))))
      ∧ answer (nextPiece "/f" 4 0 2 [1, 2]) (sampleReader, Export.replyData (.error (-5))) =
        (.error (-5), (sampleReader, [])) := by
  constructor
  · refine answerOn_recorded rfl (reads_replyData ?_ ?_ ?_)
    · intro code h
      cases h
    · show ([1, 2] : Bytes).length < blockLimit
      decide
    · intro data h
      cases h
      decide
  · have h : answerOn recorded sampleReader.config.limits (nextPiece "/f" 4 0 2 [1, 2])
        (sampleReader, Wire.ofCode (-5) ++ []) = (.error (-5), (sampleReader, [])) :=
      answerOn_recorded rfl (reads_refusal (by decide))
    rwa [List.append_nil] at h

theorem request_sample :
    (sampleReader.request recorded (.read "/f" 4 0) sampleReplies).1.1 = .ok [1, 2] := by
  have h := readOn_sample answers_sample.1 answers_sample.2
  rw [request_eq, if_neg (by decide), run_single]
  exact congrArg Prod.fst h.1

theorem exchanges_sample :
    sampleReader.exchanges recorded (.read "/f" 4 0) sampleReplies =
      [⟨.read "/f" 2 0, .ok [1, 2]⟩, ⟨.read "/f" 2 2, .error (-5)⟩] := by
  have h := readOn_sample answers_sample.1 answers_sample.2
  rw [exchanges, if_neg (by decide)]
  exact h.2

theorem short_read_iff_sample :
    ([1, 2] : Bytes).length < (4 : UInt64).toNat ↔
      ∃ x, (sampleReader.exchanges recorded (.read "/f" 4 0) sampleReplies).getLast? = some x
        ∧ (x.IsShort ∨ x.Failed ∨ x.EndsRange ((0 : UInt64).toNat + (4 : UInt64).toNat)) :=
  short_read_iff recorded sampleReader sampleReplies (by decide) request_sample

/-- **A short read is not always the end of the file**: the last exchange may have failed. -/
theorem not_always_end_of_file :
    ¬ ∀ (S L : Type) (net : Carrier (StateM S) L) (c : Connection L) (s : S) (path : String)
      (size offset : UInt64) (data : Bytes), 0 < c.config.maxIo →
      (c.request net (.read path size offset) s).1.1 = .ok data → data.length < size.toNat →
        ∃ x, (c.exchanges net (.read path size offset) s).getLast? = some x ∧ x.IsShort := by
  intro hall
  obtain ⟨x, hlast, hshort⟩ := hall Bytes Unit recorded sampleReader sampleReplies "/f" 4 0 [1, 2]
    (by decide) request_sample (by decide)
  rw [exchanges_sample] at hlast
  obtain rfl : ⟨.read "/f" 2 2, .error (-5)⟩ = x := Option.some.inj hlast
  exact hshort

end Connection
end Client
end UnionFS
