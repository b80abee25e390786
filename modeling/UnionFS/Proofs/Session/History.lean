import UnionFS.Proofs.Export.Alignment
import UnionFS.Proofs.Export.Confinement
import UnionFS.Proofs.Session.Admission
import UnionFS.Session.Schedule

/-!
# Histories

What a session has to do, told from the arrivals of its bytes alone, without its phases and clocks.
A key is admitted if its token is complete in time and opens an export (`Gate.Admits`).  Then come
rounds: a round is a command with all that belongs to it, each part of it in time (`Takes`).  The
rounds of a session are as many as its arrivals make (`Whole`), and the arrivals determine them
(`Whole.unique`).
-/

namespace UnionFS

open Dialogue Wire

/-! ## Arrivals -/

/-- When something happens: the time, and the turn of the client's schedule. -/
structure Stamp where
  time : Nat
  turn : Nat
  deriving DecidableEq, Repr

namespace Stamp

/-- The next turn begins when the pause is over. -/
def after (x : Stamp) (pause : Nat) : Stamp :=
  ⟨x.time + pause, x.turn + 1⟩

/-- A wait since then has not run out.  Within a turn no wait does, however short it is. -/
def InTime (x since : Stamp) (timeout : Nat) : Prop :=
  x.turn = since.turn ∨ x.time < since.time + timeout

/-- In the order of a schedule. -/
structure NoLater (x y : Stamp) : Prop where
  time : x.time ≤ y.time
  turn : x.turn ≤ y.turn
  same : x.turn = y.turn → x.time = y.time

variable {x y z : Stamp} {pause timeout : Nat}

theorem NoLater.refl (x : Stamp) : x.NoLater x := ⟨Nat.le_refl _, Nat.le_refl _, fun _ => rfl⟩

theorem NoLater.trans (h : x.NoLater y) (h' : y.NoLater z) : x.NoLater z := by
  refine ⟨Nat.le_trans h.time h'.time, Nat.le_trans h.turn h'.turn, fun hturn => ?_⟩
  have hxy : x.turn = y.turn := Nat.le_antisymm h.turn (hturn ▸ h'.turn)
  exact (h.same hxy).trans (h'.same (hxy ▸ hturn))

theorem NoLater.after (h : x.NoLater y) (pause : Nat) : x.NoLater (y.after pause) :=
  ⟨Nat.le_add_right_of_le h.time, Nat.le_succ_of_le h.turn,
    fun hturn => absurd (hturn ▸ h.turn) (Nat.not_succ_le_self _)⟩

theorem InTime.refl (x : Stamp) (timeout : Nat) : x.InTime x timeout := .inl rfl

/-- After a pause that outlasts the wait, whatever comes is late. -/
theorem not_inTime_of_later (h : x.NoLater y) (hlate : x.time + timeout ≤ (y.after pause).time)
    (hz : (y.after pause).NoLater z) : ¬ z.InTime x timeout := by
  have hturn : y.turn + 1 ≤ z.turn := hz.turn
  have hxy := h.turn
  have htime := hz.time
  rintro (hsame | hearly)
  · omega
  · omega

/-- What is late stays late. -/
theorem not_inTime_mono (h : x.NoLater y) (hlate : ¬ y.InTime x timeout) (hz : y.NoLater z) :
    ¬ z.InTime x timeout := by
  have hturn := h.turn
  have hturn' := hz.turn
  have htime := hz.time
  rw [InTime, not_or] at hlate
  obtain ⟨hother, hover⟩ := hlate
  rintro (hsame | hearly)
  · omega
  · omega

end Stamp

/-- A byte, and when it arrives. -/
structure Arrival where
  byte : UInt8
  stamp : Stamp
  deriving DecidableEq, Repr

def bytesOf (arrivals : List Arrival) : Bytes :=
  arrivals.map (·.byte)

/-- Bytes that arrive at once. -/
def arriving (bytes : Bytes) (now : Stamp) : List Arrival :=
  bytes.map (⟨·, now⟩)

/-- The bytes that arrive: those that are sent before the client closes its side. -/
def Schedule.arrivals : Schedule → Stamp → List Arrival
  | [], _ => []
  | ⟨.send bytes, pause⟩ :: rest, now =>
    arriving bytes now ++ Schedule.arrivals rest (now.after pause)
  | ⟨.nothing, pause⟩ :: rest, now => Schedule.arrivals rest (now.after pause)
  | ⟨.hangUp, _⟩ :: _, _ => []

@[simp] theorem bytesOf_append (a b : List Arrival) : bytesOf (a ++ b) = bytesOf a ++ bytesOf b :=
  List.map_append

@[simp] theorem bytesOf_cons (x : Arrival) (a : List Arrival) :
    bytesOf (x :: a) = x.byte :: bytesOf a := rfl

@[simp] theorem length_bytesOf (a : List Arrival) : (bytesOf a).length = a.length :=
  List.length_map ..

@[simp] theorem bytesOf_arriving (bytes : Bytes) (now : Stamp) :
    bytesOf (arriving bytes now) = bytes := by
  rw [bytesOf, arriving, List.map_map]
  exact List.map_id _

theorem stamp_of_mem_arriving {bytes : Bytes} {now : Stamp} {x : Arrival}
    (h : x ∈ arriving bytes now) : x.stamp = now := by
  obtain ⟨b, -, rfl⟩ := List.mem_map.mp h
  rfl

theorem noLater_of_mem_arriving {bytes : Bytes} {now : Stamp} {x : Arrival}
    (h : x ∈ arriving bytes now) : now.NoLater x.stamp :=
  stamp_of_mem_arriving h ▸ .refl now

/-- What a schedule sends arrives in its order. -/
theorem noLater_of_mem_arrivals {schedule : Schedule} {now : Stamp} {x : Arrival}
    (h : x ∈ schedule.arrivals now) : now.NoLater x.stamp := by
  induction schedule generalizing now with
  | nil => cases h
  | cons turn rest ih =>
      obtain ⟨deed, pause⟩ := turn
      have hnext : now.NoLater (now.after pause) := (Stamp.NoLater.refl now).after pause
      cases deed with
      | nothing => exact hnext.trans (ih h)
      | hangUp => cases h
      | send bytes =>
          rcases List.mem_append.mp h with h | h
          · exact noLater_of_mem_arriving h
          · exact hnext.trans (ih h)

theorem bytesOf_isPrefix {a b : List Arrival} (h : a <+: b) : bytesOf a <+: bytesOf b :=
  h.map _

/-! ## Admission -/

/-- A session between two rounds. -/
structure Interval where
  /-- When the wait for the next command began. -/
  since : Stamp
  /-- How many windows had been missed by then. -/
  missed : Nat
  tree : Tree

/-- The first bytes that arrive are a token that is complete in time, and the first entry with the
key in it opens an export.  With the last of them an interval begins. -/
inductive Gate.Admits (g : Gate) (t : Tree) (start : Stamp) :
    (arrivals : List Arrival) → Export → Interval → (rest : List Arrival) → Prop where
  | admitted {token rest : List Arrival} {last : Arrival} {key : String} {entry : AuthorizedKey}
    {e : Export} :
    (token ++ [last]).length = tokenWidth →
    (∀ x ∈ token ++ [last], x.stamp.InTime start g.config.readTimeout.toNat) →
    Utf8.decode (keyBytes (bytesOf (token ++ [last]))) = some key →
    g.keys.First key entry → g.Opens t entry e →
    Admits g t start (token ++ last :: rest) e ⟨last.stamp, 0, t⟩ rest

/-! ## Rounds -/

/-- The first two bytes of what starts with a command stand for it. -/
theorem Session.command?_of_append {x y : UInt8} {c : Command} {body rest : Bytes}
    (h : x :: y :: body = ofCommand c ++ rest) : command? x y = some c ∧ body = rest := by
  obtain ⟨a, b, hword⟩ : ∃ a b, ofCommand c = [a, b] := ⟨_, _, rfl⟩
  rw [hword] at h
  cases h
  refine ⟨?_, rfl⟩
  rw [command?, ← hword, word_ofCommand, Command.ofWord?_word]

/-- A command with all that belongs to it, what is sent for it, and what it writes. -/
structure Round where
  heard : List Arrival
  sent : Bytes
  writes : List Request

/-- These bytes are a whole round on the tree `t`. -/
inductive Export.Serves (e : Export) (t : Tree) :
    (heard sent : Bytes) → (writes : List Request) → Prop where
  /-- What is no command, or one that a client has no use for. -/
  | passedOver {a b : UInt8} :
    (∀ c, Session.command? a b = some c → c.isRequest = false ∧ c ≠ .stop ∧ c ≠ .heartbeat) →
    Serves e t [a, b] [] []
  | heartbeat : Serves e t (ofCommand .heartbeat) (ofCommand .heartbeat) []
  | request {c : Command} {heard sent : Bytes} {writes : List Request} :
    e.Attends t c heard sent writes → Serves e t (ofCommand c ++ heard) sent writes

/-- These bytes are a whole write: the file opens for it on the tree `t`, and all data are there. -/
inductive Export.Completes (e : Export) (t : Tree) : (heard : Bytes) → Request → Prop where
  | write {path : String} {size offset : UInt64} {q : Path} {data : Bytes} :
    (Utf8.encode path).length ≤ e.maxPath.toNat → e.openForWrite t path size = .ok q →
    data.length = size.toNat →
    Completes e t
      (ofCommand .write ++ (ofText path ++ (ofSize size ++ ofSize offset) ++ data))
      (.write path data offset)

namespace Interval

/-- How long the next command may be waited for. -/
def window (config : ServerConfig) (i : Interval) : Nat :=
  (({} : Heartbeat).threshold - i.missed) * config.readTimeout.toNat

/-- How many windows have been missed when the next command comes. -/
def missedBy (config : ServerConfig) (i : Interval) (x : Stamp) : Nat :=
  i.missed + (x.time - i.since.time) / config.readTimeout.toNat

/-- One round.  Its first byte has to come before too many windows are missed, the second byte of
the command and the rest of a request before their waits run out. -/
inductive Takes (config : ServerConfig) (e : Export) : Interval → Round → Interval → Prop where
  | round {i : Interval} {x y : Arrival} {body : List Arrival} {sent : Bytes}
    {writes : List Request} :
    x.stamp.InTime i.since (i.window config) →
    y.stamp.InTime x.stamp config.ioTimeout.toNat →
    (∀ z ∈ body, z.stamp.InTime y.stamp config.ioTimeout.toNat) →
    e.Serves i.tree (bytesOf (x :: y :: body)) sent writes →
    Takes config e i ⟨x :: y :: body, sent, writes⟩
      { since := (body.getLastD y).stamp
        missed := if bytesOf [x, y] = ofCommand .heartbeat then 0 else i.missedBy config x.stamp
        tree := e.carryOut i.tree writes }

/-- Rounds one after another. -/
inductive History (config : ServerConfig) (e : Export) : Interval → List Round → Interval → Prop
    where
  | nil (i : Interval) : History config e i [] i
  | cons {i j k : Interval} {round : Round} {rounds : List Round} :
    i.Takes config e round j → History config e j rounds k →
    History config e i (round :: rounds) k

/-- What arrives makes no further round. -/
def Stuck (config : ServerConfig) (e : Export) (i : Interval) (ahead : List Arrival) : Prop :=
  ∀ round j, i.Takes config e round j → ¬ round.heard <+: ahead

/-- These are the rounds that the arrivals make. -/
def Whole (config : ServerConfig) (e : Export) (i : Interval) (ahead : List Arrival)
    (rounds : List Round) : Prop :=
  ∃ j rest, i.History config e rounds j ∧ ahead = rounds.flatMap (·.heard) ++ rest ∧
    j.Stuck config e rest

end Interval

/-! ## What the arrivals determine -/

namespace Gate

variable {g : Gate} {t : Tree} {start : Stamp} {arrivals rest rest' : List Arrival}
  {entry : AuthorizedKey} {e e' : Export} {i i' : Interval}

/-- An entry opens one export. -/
theorem Opens.unique (h : g.Opens t entry e) (h' : g.Opens t entry e') : e = e' := by
  have hroot : e.root = e'.root := Except.ok.inj (h.root.symm.trans h'.root)
  have huser : e.user = e'.user := Option.some.inj (h.user.symm.trans h'.user)
  have hmaxPath := h.maxPath.trans h'.maxPath.symm
  have hmaxIo := h.maxIo.trans h'.maxIo.symm
  cases e
  exact congr (congr (congr (congrArg Export.mk hroot) huser) hmaxPath) hmaxIo

/-- **A client is admitted in one way.** -/
theorem Admits.unique (h : g.Admits t start arrivals e i rest)
    (h' : g.Admits t start arrivals e' i' rest') : e = e' ∧ i = i' ∧ rest = rest' := by
  cases h with
  | @admitted token rest last key entry e hlen _ hkey hfirst hopens =>
      generalize harrivals : token ++ last :: rest = arrivals at h'
      cases h' with
      | @admitted token' rest' last' key' entry' e' hlen' _ hkey' hfirst' hopens' =>
          rw [List.append_cons, List.append_cons token'] at harrivals
          obtain ⟨htoken, rfl⟩ := List.append_inj harrivals (hlen.trans hlen'.symm)
          rw [← htoken, hkey] at hkey'
          cases hkey'
          obtain ⟨-, hlast⟩ := List.append_inj' htoken rfl
          cases hlast
          obtain rfl := first_unique hfirst hfirst'
          exact ⟨hopens.unique hopens', rfl, rfl⟩

end Gate

namespace Export

variable {e : Export} {t : Tree} {x y : UInt8} {body heard heard' sent sent' : Bytes}
  {writes writes' : List Request}

/-- What the first two bytes of a round say of the rest. -/
theorem Serves.cons (h : e.Serves t (x :: y :: body) sent writes) :
    (body = [] ∧ sent = [] ∧ writes = [] ∧
        ∀ c, Session.command? x y = some c → c.isRequest = false ∧ c ≠ .stop ∧ c ≠ .heartbeat) ∨
      (Session.command? x y = some .heartbeat ∧ body = [] ∧ sent = ofCommand .heartbeat ∧
        writes = []) ∨
      ∃ c, Session.command? x y = some c ∧ e.Attends t c body sent writes := by
  generalize hbytes : x :: y :: body = bytes at h
  cases h with
  | passedOver hc =>
      cases hbytes
      exact .inl ⟨rfl, rfl, rfl, hc⟩
  | heartbeat =>
      obtain ⟨hcommand, rfl⟩ := Session.command?_of_append (c := .heartbeat)
        (hbytes.trans (List.append_nil _).symm)
      exact .inr (.inl ⟨hcommand, rfl, rfl, rfl⟩)
  | request hattends =>
      obtain ⟨hcommand, rfl⟩ := Session.command?_of_append hbytes
      exact .inr (.inr ⟨_, hcommand, hattends⟩)

/-- What arrives determines what is written. -/
theorem Attends.writes_unique {c : Command} {b b' : Bytes} (h : e.Attends t c heard sent writes)
    (h' : e.Attends t c heard' sent' writes') (heq : heard ++ b = heard' ++ b') :
    writes = writes' := by
  by_cases hc : c = .write
  · obtain ⟨arguments, data, o, size, offset, rfl, hread, hwrites⟩ := h.write_cases hc
    obtain ⟨arguments', data', o', size', offset', rfl, hread', hwrites'⟩ := h'.write_cases hc
    rw [List.append_assoc, List.append_assoc] at heq
    obtain ⟨rfl, hsame, hrest⟩ := hread.unique hread' heq t
    cases hsame
    rcases hwrites with ⟨code, hopen, -, -, rfl⟩ | ⟨path, q, rfl, hopen, hdata, -, rfl⟩
    · rcases hwrites' with ⟨_, -, -, -, rfl⟩ | ⟨path, q, rfl, hopen', -⟩
      · rfl
      · cases hopen.symm.trans hopen'
    · rcases hwrites' with ⟨code, hopen', -⟩ | ⟨path', q', hpath, -, hdata', -, rfl⟩
      · cases hopen.symm.trans hopen'
      · cases hpath
        obtain ⟨rfl, -⟩ := List.append_inj hrest (hdata.trans hdata'.symm)
        rfl
  · obtain ⟨_, -, -, rfl⟩ := h.reads hc
    obtain ⟨_, -, -, rfl⟩ := h'.reads hc
    rfl

/-- A request ends where it ends, whatever follows it. -/
theorem Attends.unique {c : Command} {b b' : Bytes} (h : e.Attends t c heard sent writes)
    (h' : e.Attends t c heard' sent' writes') (heq : heard ++ b = heard' ++ b') :
    heard = heard' ∧ sent = sent' ∧ writes = writes' := by
  have hfeed := feed_serve_of_attends h b
  have hwrites := h.writes_unique h' heq
  rw [heq, feed_serve_of_attends h' b'] at hfeed
  injection hfeed with _ hsent hrest _
  subst hrest
  exact ⟨List.append_cancel_right heq, hsent.symm, hwrites⟩

/-- So does a round. -/
theorem Serves.unique {b b' : Bytes} (h : e.Serves t (x :: y :: heard) sent writes)
    (h' : e.Serves t (x :: y :: heard') sent' writes') (heq : heard ++ b = heard' ++ b') :
    heard = heard' ∧ sent = sent' ∧ writes = writes' := by
  rcases h.cons with ⟨rfl, rfl, rfl, hc⟩ | ⟨hc, rfl, rfl, rfl⟩ | ⟨c, hc, hattends⟩
  · rcases h'.cons with ⟨rfl, rfl, rfl, -⟩ | ⟨hc', rfl, rfl, rfl⟩ | ⟨c', hc', hattends'⟩
    · exact ⟨rfl, rfl, rfl⟩
    · exact absurd rfl (hc _ hc').2.2
    · exact absurd hattends'.isRequest (by rw [(hc _ hc').1]; decide)
  · rcases h'.cons with ⟨rfl, rfl, rfl, hc'⟩ | ⟨hc', rfl, rfl, rfl⟩ | ⟨c', hc', hattends'⟩
    · exact absurd rfl (hc' _ hc).2.2
    · exact ⟨rfl, rfl, rfl⟩
    · cases hc.symm.trans hc'
      cases hattends'.isRequest
  · rcases h'.cons with ⟨rfl, rfl, rfl, hc'⟩ | ⟨hc', rfl, rfl, rfl⟩ | ⟨c', hc', hattends'⟩
    · exact absurd hattends.isRequest (by rw [(hc' _ hc).1]; decide)
    · cases hc.symm.trans hc'
      cases hattends.isRequest
    · cases hc.symm.trans hc'
      exact hattends.unique hattends' heq

/-- All that is sent for a round. -/
theorem Serves.answer (h : e.Serves t heard sent writes) :
    sent = [] ∨ sent = ofCommand .heartbeat ∨ ∃ c, Reply c sent := by
  cases h with
  | passedOver => exact .inl rfl
  | heartbeat => exact .inr (.inl rfl)
  | request hattends => exact .inr (.inr ⟨_, hattends.reply⟩)

/-! ## What is written -/

theorem Serves.two (h : e.Serves t heard sent writes) : ∃ x y body, heard = x :: y :: body := by
  cases h with
  | passedOver => exact ⟨_, _, _, rfl⟩
  | heartbeat => exact ⟨_, _, _, rfl⟩
  | request => exact ⟨_, _, _, rfl⟩

/-- **A round writes if and only if it is a whole write**, and then what it says. -/
theorem Serves.mem_writes (h : e.Serves t heard sent writes) (r : Request) :
    r ∈ writes ↔ e.Completes t heard r := by
  constructor
  · intro hr
    cases h with
    | passedOver => cases hr
    | heartbeat => cases hr
    | request hattends =>
        cases hattends with
        | notText | atOnce | refused => cases hr
        | written hlen hopen hdata =>
            obtain rfl := List.mem_singleton.mp hr
            exact .write hlen hopen hdata
  · intro hr
    cases hr with
    | @write path size offset q data hlen hopen hdata =>
        have hwrite : e.Serves t _ _ [.write path data offset] :=
          .request (.written hlen hopen hdata)
        obtain ⟨x, y, body, hheard⟩ := h.two
        rw [hheard] at h hwrite
        obtain ⟨-, -, rfl⟩ := h.unique hwrite (rfl : body ++ [] = body ++ [])
        exact List.mem_singleton.mpr rfl

theorem Serves.length_writes (h : e.Serves t heard sent writes) : writes.length ≤ 1 := by
  cases h with
  | passedOver => exact Nat.zero_le _
  | heartbeat => exact Nat.zero_le _
  | request hattends =>
      cases hattends with
      | notText | atOnce | refused => exact Nat.zero_le _
      | written => exact Nat.le_refl _

theorem sameOutline_carryOut (e : Export) (t : Tree) (writes : List Request) :
    t.SameOutline (e.carryOut t writes) := by
  induction writes generalizing t with
  | nil => exact .refl t
  | cons r writes ih => exact (e.sameOutline_perform t r).trans (ih _)

theorem Completes.congr {t' : Tree} {r : Request} (h : e.Completes t heard r)
    (hsame : t.SameOutline t') : e.Completes t' heard r := by
  cases h with
  | write hlen hopen hdata => exact .write hlen (openForWrite_of_sameOutline hsame hopen) hdata

end Export

namespace Interval

variable {config : ServerConfig} {e : Export} {i j j' k : Interval} {ahead : List Arrival}
  {round round' : Round} {rounds rounds' : List Round}

/-- **The next round is determined by what arrives.** -/
theorem Takes.unique (h : i.Takes config e round j) (h' : i.Takes config e round' j')
    (hp : round.heard <+: ahead) (hp' : round'.heard <+: ahead) : round = round' ∧ j = j' := by
  cases h with
  | @round x y body sent writes hx hy hbody hserves =>
      cases h' with
      | @round x' y' body' sent' writes' hx' hy' hbody' hserves' =>
          -- both begin with the same two bytes, and what follows these decides where they end
          obtain ⟨rest, rfl⟩ := hp
          obtain ⟨rest', heq⟩ := hp'
          obtain ⟨rfl, rfl, htail⟩ : x' = x ∧ y' = y ∧ body' ++ rest' = body ++ rest := by
            simpa using heq
          have hbytes := congrArg bytesOf htail.symm
          rw [bytesOf_append, bytesOf_append] at hbytes
          obtain ⟨hsame, rfl, rfl⟩ := hserves.unique hserves' hbytes
          have hlen : body.length = body'.length := by
            rw [← length_bytesOf body, ← length_bytesOf body']
            exact congrArg List.length hsame
          obtain rfl := (List.append_inj htail hlen.symm).1
          exact ⟨rfl, rfl⟩

theorem History.append (h : i.History config e rounds j) (h' : j.History config e rounds' k) :
    i.History config e (rounds ++ rounds') k := by
  induction h with
  | nil i => exact h'
  | cons htakes _ ih => exact .cons htakes (ih h')

/-- The writes of its rounds are all that changes the tree. -/
theorem History.tree (h : i.History config e rounds j) :
    j.tree = e.carryOut i.tree (rounds.flatMap (·.writes)) := by
  induction h with
  | nil i => rfl
  | cons htakes _ ih =>
      cases htakes
      rw [ih, List.flatMap_cons]
      exact List.foldl_append.symm

theorem History.answer (h : i.History config e rounds j) (hround : round ∈ rounds) :
    round.sent = [] ∨ round.sent = ofCommand .heartbeat ∨ ∃ c, Export.Reply c round.sent := by
  induction h with
  | nil => cases hround
  | cons htakes _ ih =>
      cases htakes with
      | round _ _ _ hserves =>
          rcases List.mem_cons.mp hround with rfl | hround
          · exact hserves.answer
          · exact ih hround

/-- What a round writes can be told from the tree before all rounds. -/
theorem History.writes (h : i.History config e rounds j) (hround : round ∈ rounds) :
    round.writes.length ≤ 1 ∧
      ∀ r, r ∈ round.writes ↔ e.Completes i.tree (bytesOf round.heard) r := by
  induction h with
  | nil => cases hround
  | @cons i _ _ _ _ htakes _ ih =>
      cases htakes with
      | @round x y body sent writes hx hy hbody hserves =>
          rcases List.mem_cons.mp hround with rfl | hround
          · exact ⟨hserves.length_writes, hserves.mem_writes⟩
          · have hsame := e.sameOutline_carryOut i.tree writes
            obtain ⟨hlength, hmem⟩ := ih hround
            exact ⟨hlength, fun r =>
              (hmem r).trans ⟨fun h => h.congr hsame.symm, fun h => h.congr hsame⟩⟩

/-- Every step of a history is determined by its round. -/
theorem History.functional (h : i.History config e rounds j) (h' : i.History config e rounds j') :
    j = j' := by
  induction h with
  | nil i =>
      cases h'
      rfl
  | cons htakes _ ih =>
      cases h' with
      | cons htakes' h' =>
          obtain ⟨-, rfl⟩ := htakes.unique htakes' (List.prefix_refl _) (List.prefix_refl _)
          exact ih h'

/-- A history that makes all the rounds there are has no other beside it. -/
theorem History.unique {rest rest' : List Arrival} (h : i.History config e rounds j)
    (h' : i.History config e rounds' j')
    (heq : rounds.flatMap (·.heard) ++ rest = rounds'.flatMap (·.heard) ++ rest')
    (hstuck : j.Stuck config e rest) (hstuck' : j'.Stuck config e rest') : rounds = rounds' := by
  induction h generalizing rounds' with
  | nil i =>
      cases h' with
      | nil => rfl
      | @cons _ _ _ round' rounds' htakes' _ =>
          -- the other history goes on where this one is stuck
          refine absurd ?_ (hstuck _ _ htakes')
          rw [List.flatMap_nil, List.nil_append, List.flatMap_cons, List.append_assoc] at heq
          exact heq ▸ List.prefix_append _ _
  | @cons i j k round rounds htakes _ ih =>
      rw [List.flatMap_cons, List.append_assoc] at heq
      cases h' with
      | nil =>
          refine absurd ?_ (hstuck' _ _ htakes)
          rw [List.flatMap_nil, List.nil_append] at heq
          exact heq ▸ List.prefix_append _ _
      | @cons _ j'' _ round' rounds' htakes' h' =>
          rw [List.flatMap_cons, List.append_assoc] at heq
          have hbegins := List.prefix_append round'.heard (rounds'.flatMap (·.heard) ++ rest')
          rw [← heq] at hbegins
          obtain ⟨rfl, rfl⟩ := htakes.unique htakes' (List.prefix_append _ _) hbegins
          rw [ih h' (List.append_cancel_left heq) hstuck]

/-- **What arrives determines the rounds**, with all that is sent and written. -/
theorem Whole.unique (h : i.Whole config e ahead rounds) (h' : i.Whole config e ahead rounds') :
    rounds = rounds' := by
  obtain ⟨j, rest, hhistory, hahead, hstuck⟩ := h
  obtain ⟨j', rest', hhistory', hahead', hstuck'⟩ := h'
  exact hhistory.unique hhistory' (hahead.symm.trans hahead') hstuck hstuck'

theorem Whole.answer (h : i.Whole config e ahead rounds) (hround : round ∈ rounds) :
    round.sent = [] ∨ round.sent = ofCommand .heartbeat ∨ ∃ c, Export.Reply c round.sent := by
  obtain ⟨j, rest, hhistory, -⟩ := h
  exact hhistory.answer hround

theorem Whole.writes (h : i.Whole config e ahead rounds) (hround : round ∈ rounds) :
    round.writes.length ≤ 1 ∧
      ∀ r, r ∈ round.writes ↔ e.Completes i.tree (bytesOf round.heard) r := by
  obtain ⟨j, rest, hhistory, -⟩ := h
  exact hhistory.writes hround

end Interval
end UnionFS
