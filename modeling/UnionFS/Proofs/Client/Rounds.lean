import Mathlib.Algebra.GroupWithZero.Nat
import UnionFS.Proofs.Client.InStep
import UnionFS.Proofs.Client.ShortReads

/-!
# Rounds of a request in pieces

A read or write in pieces goes in rounds of one exchange each.  `ReadRun` and `WriteRun` say how
such a request can go, round by round, against a server that answers as it likes; what a server
cannot do is to give more than it was asked for, as the client refuses such a reply
(`within_answerOn`).

Each round but the last moves a whole piece, and that is what carries the rest: no more is moved
than was wanted (`ReadRun.length_given_le`, `WriteRun.given_le`), each piece begins where the ones
before it end (`ReadRun.asked`, `WriteRun.asked`), and there are no more rounds than pieces
(`ReadRun.length_le`, `WriteRun.length_le`).
-/

namespace UnionFS.Client

/-! ## What exchanges move -/

namespace Attempt

/-- How many bytes an exchange has moved, as the client counts them. -/
def moved : Attempt → Nat
  | ⟨.read _ _ _, .ok chunk⟩ => chunk.length
  | ⟨.write _ chunk _, .ok count⟩ => min count.toNat chunk.length
  | _ => 0

/-- No more was read than was asked for. -/
def Within : Attempt → Prop
  | ⟨.read _ want _, .ok chunk⟩ => chunk.length ≤ want.toNat
  | _ => True

end Attempt

/-- How many bytes some exchanges have moved together. -/
def moved (exchanges : List Attempt) : Nat :=
  (exchanges.map Attempt.moved).sum

@[simp] theorem moved_nil : moved [] = 0 := rfl

@[simp] theorem moved_cons (x : Attempt) (exchanges : List Attempt) :
    moved (x :: exchanges) = x.moved + moved exchanges := List.sum_cons

/-- Among exchanges of which there is one, none comes before it. -/
theorem eq_of_only {x y : Attempt} {done rest : List Attempt} (h : [y] = done ++ x :: rest) :
    done = [] ∧ x = y := by
  rcases List.cons_eq_append_iff.mp h with ⟨rfl, hx⟩ | ⟨later, -, hnone⟩
  · exact ⟨rfl, (List.cons.inj hx).1⟩
  · exact absurd hnone (by simp)

/-- A dialogue that has come to its end on a carrier has run. -/
theorem Carrier.runs_of_converse {S L α : Type} {net : Carrier (StateM S) L} (hnet : net.Exact)
    {l : L} {d : Dialogue Unit α} {s s' : S} {a : α} (h : net.converse l d s = (.ok a, s')) :
    ∃ said heard, Dialogue.Runs d said heard a := by
  let line : Numbered L := ⟨0, l⟩
  let t : Tap S := { state := s }
  have hstate := net.converse_tapped_state line d t
  rw [h] at hstate
  obtain ⟨signals, -, -, ⟨a', ha', hruns⟩ | ⟨e, he, -⟩⟩ := converse_tapped line hnet d t
  · rw [ha'] at hstate
    obtain rfl : a = a' := Except.ok.inj (Prod.mk.inj hstate).1
    exact ⟨_, _, hruns⟩
  · rw [he] at hstate
    cases (Prod.mk.inj hstate).1

/-- **Whatever a server sends, no more is read than was asked for.** -/
theorem Connection.within_answerOn {S L : Type} {net : Carrier (StateM S) L} (hnet : net.Exact)
    (limits : Limits) (q : Request) (x : Connection L × S) :
    Attempt.Within ⟨q, (answerOn net limits q x).1⟩ := by
  cases q with
  | read path size offset =>
      rw [answerOn, single]
      cases hline : x.1.line with
      | none =>
          rw [transact_none hline]
          trivial
      | some l =>
          rw [transact_eq hline]
          rcases hconverse : net.converse l (exchange limits (.read path size offset)) x.2 with
            ⟨_ | reply, s⟩
          · trivial
          · obtain ⟨said, heard, hruns⟩ := Carrier.runs_of_converse hnet hconverse
            have hcomplete := complete_of_runs hruns
            cases hcomplete with
            | refused => trivial
            | data _ hlen => exact hlen
  | getattr | access | readdir | write | openFile => trivial

/-- How many pieces of at most `limit` bytes it takes, if one is made in any case. -/
def roundsFor (length limit : Nat) : Nat :=
  max 1 ((length + limit - 1) / limit)

theorem roundsFor_pos (length limit : Nat) : 1 ≤ roundsFor length limit :=
  Nat.le_max_left _ _

/-- Where there are rounds for some pieces, there is one to begin with. -/
theorem exists_round {length limit rounds : Nat} (h : roundsFor length limit ≤ rounds) :
    ∃ later, rounds = later + 1 :=
  Nat.exists_eq_add_one.mpr (Nat.le_trans (roundsFor_pos length limit) h)

/-- After a whole piece, of which there are more, one round less is left. -/
theorem roundsFor_sub {length limit : Nat} (hlimit : 0 < limit) (h : limit < length) :
    roundsFor (length - limit) limit + 1 = roundsFor length limit := by
  have hleft : length - limit + limit - 1 = length - 1 := by omega
  have hall : length + limit - 1 = length - 1 + limit := by omega
  have hone : 1 ≤ (length - 1) / limit := by
    rw [Nat.le_div_iff_mul_le hlimit]
    omega
  rw [roundsFor, roundsFor, hleft, hall, Nat.add_div_right _ hlimit]
  omega

section Reading

variable {path : String} {size offset limit : Nat} {data : Bytes} {exchanges : List Attempt}
  {out : Outcome Bytes}

/-! ## Rounds of a read -/

/-- How a read can go on that has come so far: past the last offset, or one more piece. -/
inductive ReadRun (path : String) (size offset limit : Nat) :
    Bytes → List Attempt → Outcome Bytes → Prop where
  | past {data : Bytes} :
    offsetEnd ≤ offset + data.length → ReadRun path size offset limit data [] (.ok data)
  | failed {data : Bytes} (code : Code) : offset + data.length < offsetEnd →
    ReadRun path size offset limit data [⟨nextPiece path size offset limit data, .error code⟩]
      (if data.isEmpty then .error code else .ok data)
  | last {data chunk : Bytes} : offset + data.length < offsetEnd →
    chunk.length ≤ min (size - data.length) limit →
    chunk.length < min (size - data.length) limit ∨ size ≤ (data ++ chunk).length →
    ReadRun path size offset limit data [⟨nextPiece path size offset limit data, .ok chunk⟩]
      (.ok (data ++ chunk))
  | whole {data chunk : Bytes} {later : List Attempt} {out : Outcome Bytes} :
    offset + data.length < offsetEnd → chunk.length = min (size - data.length) limit →
    (data ++ chunk).length < size → ReadRun path size offset limit (data ++ chunk) later out →
    ReadRun path size offset limit data
      (⟨nextPiece path size offset limit data, .ok chunk⟩ :: later) out

/-- **A read in pieces goes so**, if never more is read than is asked for. -/
theorem readRun_of_goes (hlimit : 0 < limit) (hlimit' : limit < 2 ^ 64)
    (h : (readOn path size offset limit data).Goes exchanges out)
    (hwithin : ∀ x ∈ exchanges, x.Within) :
    ReadRun path size offset limit data exchanges out := by
  induction data using readOn.induct path size offset limit generalizing exchanges
  case case1 data position hend =>
      rw [readOn, if_pos hend] at h
      cases h
      exact .past hend
  case case2 data want position hend ih =>
      have hposition : offset + data.length < offsetEnd := Nat.not_le.mp hend
      rw [readOn, if_neg hend] at h
      cases h with
      | @ask _ _ answer later _ h =>
          obtain ⟨hfirst, hlater⟩ := List.forall_mem_cons.mp hwithin
          rcases answer with code | chunk
          · cases h
            exact .failed code hposition
          · have hchunk : chunk.length ≤ min (size - data.length) limit := by
              have hwant : (UInt64.ofNat (min (size - data.length) limit)).toNat =
                  min (size - data.length) limit :=
                UInt64.toNat_ofNat_of_lt' (Nat.lt_of_le_of_lt (Nat.min_le_right _ _) hlimit')
              exact hwant ▸ hfirst
            dsimp only at h
            split at h
            · next hlast =>
              cases h
              refine .last hposition hchunk ?_
              rcases hlast with hshort | hfull | hnone
              · exact .inl hshort
              · exact .inr hfull
              · -- an empty piece came short, or none was left to ask for
                rw [hnone, List.length_append, List.length_nil]
                omega
            · next hgoes =>
              obtain ⟨hfull, hmore⟩ := not_or.mp hgoes
              exact .whole hposition (Nat.le_antisymm hchunk (Nat.not_lt.mp hfull))
                (Nat.not_le.mp (not_or.mp hmore).1) (ih chunk hgoes h hlater)

namespace ReadRun

/-- No more is given than was wanted. -/
theorem length_given_le (h : ReadRun path size offset limit data exchanges out)
    (hsize : data.length ≤ size) {given : Bytes} (hgiven : out = .ok given) :
    given.length ≤ size := by
  induction h with
  | past hend =>
      cases hgiven
      exact hsize
  | failed code hposition =>
      split at hgiven
      · cases hgiven
      · cases hgiven
        exact hsize
  | last hposition hchunk hlast =>
      cases hgiven
      rw [List.length_append]
      omega
  | whole hposition hchunk hmore _ ih => exact ih (Nat.le_of_lt hmore) hgiven

/-- **Each exchange asks for what is missing, right behind what has come.** -/
theorem asked (h : ReadRun path size offset limit data exchanges out) (hsize : data.length ≤ size)
    (hlimit' : limit < 2 ^ 64) {done rest : List Attempt} {x : Attempt}
    (heq : exchanges = done ++ x :: rest) :
    ∃ want position, x.1 = .read path want position
      ∧ data.length + moved done ≤ size
      ∧ want.toNat = min (size - (data.length + moved done)) limit
      ∧ position.toNat = offset + (data.length + moved done) := by
  -- the first exchange asks for the next piece, and a later one is one of what comes after it
  have hfirst : ∀ data : Bytes, data.length ≤ size → offset + data.length < offsetEnd →
      ∃ want position, nextPiece path size offset limit data = .read path want position
        ∧ data.length + moved [] ≤ size
        ∧ want.toNat = min (size - (data.length + moved [])) limit
        ∧ position.toNat = offset + (data.length + moved []) := by
    intro data hsize hposition
    refine ⟨_, _, rfl, hsize, ?_, UInt64.toNat_ofNat_of_lt' hposition⟩
    exact UInt64.toNat_ofNat_of_lt' (Nat.lt_of_le_of_lt (Nat.min_le_right _ _) hlimit')
  induction h generalizing done with
  | past hend => exact absurd heq (by simp)
  | failed code hposition =>
      obtain ⟨rfl, rfl⟩ := eq_of_only heq
      exact hfirst _ hsize hposition
  | last hposition hchunk hlast =>
      obtain ⟨rfl, rfl⟩ := eq_of_only heq
      exact hfirst _ hsize hposition
  | @whole data chunk later out hposition hchunk hmore _ ih =>
      rcases List.cons_eq_append_iff.mp heq with ⟨rfl, hx⟩ | ⟨done, rfl, hlater⟩
      · obtain ⟨rfl, -⟩ := List.cons.inj hx
        exact hfirst _ hsize hposition
      · obtain ⟨want, position, hx, hsum⟩ := ih (Nat.le_of_lt hmore) hlater
        rw [List.length_append, Nat.add_assoc] at hsum
        exact ⟨want, position, hx, by rwa [moved_cons]⟩

/-- **There are no more exchanges than pieces.** -/
theorem length_le (h : ReadRun path size offset limit data exchanges out) (hlimit : 0 < limit) :
    exchanges.length ≤ roundsFor (size - data.length) limit := by
  induction h with
  | past => exact Nat.zero_le _
  | failed => exact roundsFor_pos _ _
  | last => exact roundsFor_pos _ _
  | @whole data chunk later out hposition hchunk hmore _ ih =>
      rw [List.length_append] at ih hmore
      have hlength : chunk.length = limit := by omega
      have hleft : size - (data.length + chunk.length) = size - data.length - limit := by omega
      rw [hleft] at ih
      rw [List.length_cons, ← roundsFor_sub hlimit (by omega)]
      exact Nat.succ_le_succ ih

end ReadRun
end Reading

section Writing

variable {path : String} {data : Bytes} {offset limit written : Nat} {exchanges : List Attempt}
  {out : Outcome UInt64}

/-! ## Rounds of a write -/

/-- What is sent next, of a write that has come so far. -/
abbrev nextChunk (data : Bytes) (limit written : Nat) : Bytes :=
  (data.drop written).take limit

theorem length_nextChunk (data : Bytes) (limit written : Nat) :
    (nextChunk data limit written).length = min limit (data.length - written) := by
  rw [List.length_take, List.length_drop]

/-- A count of bytes fits a word. -/
theorem toNat_of_le_length {n : Nat} (hdata : data.length < 2 ^ 63) (hn : n ≤ data.length) :
    (UInt64.ofNat n).toNat = n :=
  UInt64.toNat_ofNat_of_lt' (Nat.lt_of_le_of_lt hn (Nat.lt_trans hdata (by decide)))

/-- How a write can go on that has come so far: past the last offset, or one more piece. -/
inductive WriteRun (path : String) (data : Bytes) (offset limit : Nat) :
    Nat → List Attempt → Outcome UInt64 → Prop where
  | past {written : Nat} :
    offsetEnd ≤ offset + written →
    WriteRun path data offset limit written [] (.ok (UInt64.ofNat written))
  | failed {written : Nat} (code : Code) : offset + written < offsetEnd →
    WriteRun path data offset limit written
      [⟨.write path (nextChunk data limit written) (UInt64.ofNat (offset + written)),
        .error code⟩]
      (if written = 0 then .error code else .ok (UInt64.ofNat written))
  | last {written count : Nat} {claimed : UInt64} : offset + written < offsetEnd →
    count = min claimed.toNat (nextChunk data limit written).length →
    count < (nextChunk data limit written).length ∨ data.length ≤ written + count →
    WriteRun path data offset limit written
      [⟨.write path (nextChunk data limit written) (UInt64.ofNat (offset + written)),
        .ok claimed⟩]
      (.ok (UInt64.ofNat (written + count)))
  | whole {written count : Nat} {claimed : UInt64} {later : List Attempt} {out : Outcome UInt64} :
    offset + written < offsetEnd →
    count = min claimed.toNat (nextChunk data limit written).length →
    count = (nextChunk data limit written).length → written + count < data.length →
    WriteRun path data offset limit (written + count) later out →
    WriteRun path data offset limit written
      (⟨.write path (nextChunk data limit written) (UInt64.ofNat (offset + written)),
        .ok claimed⟩ :: later) out

/-- **A write in pieces goes so.** -/
theorem writeRun_of_goes (hlimit : 0 < limit)
    (h : (writeOn path data offset limit written).Goes exchanges out) :
    WriteRun path data offset limit written exchanges out := by
  induction written using writeOn.induct path data offset limit generalizing exchanges
  case case1 written position hend =>
      rw [writeOn, if_pos hend] at h
      cases h
      exact .past hend
  case case2 written chunk position hend ih =>
      have hposition : offset + written < offsetEnd := Nat.not_le.mp hend
      rw [writeOn, if_neg hend] at h
      cases h with
      | @ask _ _ answer later _ h =>
          rcases answer with code | claimed
          · cases h
            exact .failed code hposition
          · dsimp only at h
            split at h
            · next hlast =>
              cases h
              refine .last hposition rfl ?_
              rcases hlast with hshort | hfull | hnone
              · exact .inl hshort
              · exact .inr hfull
              · -- an empty piece came short, or none was left to send
                rw [hnone, length_nextChunk]
                omega
            · next hgoes =>
              obtain ⟨hfull, hmore⟩ := not_or.mp hgoes
              exact .whole hposition rfl (Nat.le_antisymm (Nat.min_le_right _ _)
                (Nat.not_lt.mp hfull)) (Nat.not_le.mp (not_or.mp hmore).1) (ih claimed hgoes h)

namespace WriteRun

/-- **No more is reported than was to be written**, whatever the server claims. -/
theorem given_le (h : WriteRun path data offset limit written exchanges out)
    (hdata : data.length < 2 ^ 63) (hwritten : written ≤ data.length) {given : UInt64}
    (hgiven : out = .ok given) : given.toNat ≤ data.length := by
  induction h with
  | past hend =>
      cases hgiven
      rwa [toNat_of_le_length hdata hwritten]
  | failed code hposition =>
      split at hgiven
      · cases hgiven
      · cases hgiven
        rwa [toNat_of_le_length hdata hwritten]
  | @last written count claimed hposition hcount hlast =>
      cases hgiven
      rw [length_nextChunk] at hcount
      have hle : written + count ≤ data.length := by omega
      rwa [toNat_of_le_length hdata hle]
  | whole hposition hcount hwhole hmore _ ih => exact ih (Nat.le_of_lt hmore) hgiven

/-- After a whole piece, of which there are more, the next does not end behind all words. -/
theorem limit_of_whole {count : Nat} (hdata : data.length < 2 ^ 63)
    (hwhole : count = (nextChunk data limit written).length)
    (hmore : written + count < data.length) :
    count = limit ∧ written + count + limit < 2 ^ 64 := by
  rw [length_nextChunk] at hwhole
  omega

/-- **Each exchange sends what comes next, right behind what has been written.** -/
theorem asked (h : WriteRun path data offset limit written exchanges out)
    (hdata : data.length < 2 ^ 63) (hwritten : written ≤ data.length)
    (hfits : written + limit < 2 ^ 64) {done rest : List Attempt} {x : Attempt}
    (heq : exchanges = done ++ x :: rest) :
    ∃ position, x.1 = .write path (nextChunk data limit (written + moved done)) position
      ∧ written + moved done ≤ data.length
      ∧ written + moved done + limit < 2 ^ 64
      ∧ position.toNat = offset + (written + moved done) := by
  induction h generalizing done with
  | past hend => exact absurd heq (by simp)
  | failed code hposition =>
      obtain ⟨rfl, rfl⟩ := eq_of_only heq
      exact ⟨_, rfl, hwritten, hfits, UInt64.toNat_ofNat_of_lt' hposition⟩
  | last hposition hcount hlast =>
      obtain ⟨rfl, rfl⟩ := eq_of_only heq
      exact ⟨_, rfl, hwritten, hfits, UInt64.toNat_ofNat_of_lt' hposition⟩
  | whole hposition hcount hwhole hmore _ ih =>
      rcases List.cons_eq_append_iff.mp heq with ⟨rfl, hx⟩ | ⟨done, rfl, hlater⟩
      · obtain ⟨rfl, -⟩ := List.cons.inj hx
        exact ⟨_, rfl, hwritten, hfits, UInt64.toNat_ofNat_of_lt' hposition⟩
      · obtain ⟨position, hx, hsum⟩ :=
          ih (Nat.le_of_lt hmore) (limit_of_whole hdata hwhole hmore).2 hlater
        rw [Nat.add_assoc, hcount] at hx hsum
        exact ⟨position, hx, hsum⟩

/-- **There are no more exchanges than pieces.** -/
theorem length_le (h : WriteRun path data offset limit written exchanges out)
    (hlimit : 0 < limit) : exchanges.length ≤ roundsFor (data.length - written) limit := by
  induction h with
  | past => exact Nat.zero_le _
  | failed => exact roundsFor_pos _ _
  | last => exact roundsFor_pos _ _
  | @whole written count claimed later out hposition hcount hwhole hmore _ ih =>
      rw [length_nextChunk] at hwhole
      have hleft : data.length - (written + count) = data.length - written - limit := by omega
      rw [hleft] at ih
      rw [List.length_cons, ← roundsFor_sub hlimit (by omega)]
      exact Nat.succ_le_succ ih

end WriteRun
end Writing
end UnionFS.Client
