import UnionFS.Proofs.Client.InStep

/-!
# What an answer is made of

The answer to a request is made of the replies to its own exchanges (`Accounts`), also where an
exchange breaks off: then the plan goes on without a stream.  Of errands one after another each is
made where those before it have left the connection and the network (`final`).
-/

namespace UnionFS.Client

variable {S L α : Type} {limits : Limits} {k : Nat}

/-- What a plan comes to when there is no stream for its exchanges. -/
def unconnected (p : Exchanges α) : α :=
  (p.outcome (fun _ (_ : Unit) => (.error .notConnected, ())) ()).1

/-- The answer is what the plan makes of the replies: of those that were complete, and of the code
of the exchange that broke off, if one did. -/
inductive Accounts (limits : Limits) (k : Nat) : Exchanges α → List Signal → α → Prop where
  | done (a : α) : Accounts limits k (.done a) [] a
  | ask {q : Request} {next : Outcome q.Answer → Exchanges α} {signals more : List Signal}
    {o : Outcome q.Answer} {a : α} :
    Exchanged limits k q signals o → Accounts limits k (next o) more a →
    Accounts limits k (.ask q next) (signals ++ more) a
  | severed {q : Request} {next : Outcome q.Answer → Exchanges α} {signals : List Signal}
    (code : Code) :
    Severed limits k q signals →
    Accounts limits k (.ask q next) (signals ++ [.dropped k]) (unconnected (next (.error code)))

namespace Connection

variable {net : Carrier (StateM S) L} {c : Connection (Numbered L)} {l : Numbered L}

theorem run_unconnected (hline : c.line = none) (net : Carrier (StateM S) (Numbered L))
    (limits : Limits) (p : Exchanges α) (s : S) :
    p.run (single net limits) c s = ((unconnected p, c), s) := by
  induction p with
  | done a => rfl
  | ask q next ih =>
    rw [run_ask, transact_none hline]
    exact ih _

theorem accounts_run (hnet : net.Exact) (hline : c.line = some l) (limits : Limits)
    (p : Exchanges α) (t : Tap S) :
    ∃ signals, (p.run (single net.tapped limits) c t).2.log = t.log ++ signals
      ∧ Accounts limits l.number p signals (p.run (single net.tapped limits) c t).1.1 := by
  induction p generalizing t with
  | done a => exact ⟨[], (List.append_nil _).symm, .done a⟩
  | ask q next ih =>
    rw [run_ask]
    obtain ⟨signals, t', hwithin, h | h⟩ := transact_tapped hnet hline (exchange limits q) t
    · obtain ⟨o, ho, hlog, hruns⟩ := h
      obtain ⟨more, hmore, haccounts⟩ := ih o t'
      rw [ho]
      refine ⟨signals ++ more, ?_, .ask ⟨hwithin, complete_of_runs hruns⟩ haccounts⟩
      rw [hmore, hlog, List.append_assoc]
    · obtain ⟨code, hcode, hlog, hbreaks⟩ := h
      rw [hcode]
      dsimp only
      rw [run_unconnected rfl]
      exact ⟨_, hlog, .severed code ⟨hwithin, not_refused_of_breaks hbreaks⟩⟩

end Connection

/-- The answer to a request that was made on a stream is made of its own replies. -/
def Episode.Accounted : Episode L → Prop
  | ⟨c, .request r, answer, _, signals⟩ =>
    (Utf8.encode r.path).length ≤ c.config.maxPath.toNat → ∀ l, c.line = some l →
      Accounts c.config.limits l.number (split c.config.maxIo r) signals answer
  | _ => True

variable {net : Carrier (StateM S) L} {c : Connection (Numbered L)} {t : Tap S}
  {es : List Errand}

theorem accounted_course (hnet : net.Exact) : ∀ x ∈ course net es c t, x.Accounted := by
  induction es generalizing c t with
  | nil =>
    intro x hx
    cases hx
  | cons e es ih =>
    refine List.forall_mem_cons.mpr ⟨?_, ih⟩
    cases e with
    | connect | beat | stop => trivial
    | request r =>
      intro hshort l hline
      have hrun := Connection.request_of_short net.tapped hshort
      obtain ⟨signals, hlog, haccounts⟩ :=
        Connection.accounts_run hnet hline c.config.limits (split c.config.maxIo r) t
      rw [← hrun] at hlog haccounts
      have hsignals : (c.request net.tapped r t).2.log.drop t.log.length = signals := by
        rw [hlog, List.drop_left]
      show Accounts _ _ _ ((c.request net.tapped r t).2.log.drop t.log.length) _
      rw [hsignals]
      exact haccounts

/-! ## Errands one after another -/

section
variable {σ M : Type} {net : Carrier (StateM σ) M} {c : Connection M} {n : σ}

/-- The connection and the network after some errands. -/
def final (net : Carrier (StateM σ) M) : List Errand → Connection M → σ → Connection M × σ
  | [], c, n => (c, n)
  | e :: es, c, n =>
    let x := e.run net c n
    final net es x.1.2 x.2

theorem final_concat (e : Errand) :
    final net (es ++ [e]) c n =
      ((e.run net (final net es c n).1 (final net es c n).2).1.2,
        (e.run net (final net es c n).1 (final net es c n).2).2) := by
  induction es generalizing c n with
  | nil => rfl
  | cons _ es ih => exact ih

theorem conduct_concat (e : Errand) :
    conduct net (es ++ [e]) c n =
      conduct net es c n
        ++ [⟨e, (e.run net (final net es c n).1 (final net es c n).2).1.1⟩] := by
  induction es generalizing c n with
  | nil => rfl
  | cons _ es ih => exact congrArg (List.cons _) ih

theorem length_conduct : (conduct net es c n).length = es.length := by
  induction es generalizing c n with
  | nil => rfl
  | cons _ es ih => exact congrArg (· + 1) ih

end

/-- The episodes of a course, the last of them apart. -/
theorem course_concat (e : Errand) :
    course net (es ++ [e]) c t = course net es c t
      ++ course net [e] (final net.tapped es c t).1 (final net.tapped es c t).2 := by
  induction es generalizing c t with
  | nil => rfl
  | cons _ es ih => exact congrArg (List.cons _) ih

/-- All that happens on the streams of a connection happens in its errands. -/
theorem log_final (hnet : net.Exact) (es : List Errand) (c : Connection (Numbered L)) (t : Tap S) :
    (final net.tapped es c t).2.log = t.log ++ (course net es c t).flatMap (·.signals) := by
  induction es generalizing c t with
  | nil => exact (List.append_nil _).symm
  | cons e es ih =>
    obtain ⟨signals, hlog, -⟩ := Connection.settled_run hnet c e t
    rw [final, ih, course, List.flatMap_cons, hlog, List.drop_left, List.append_assoc]

end UnionFS.Client
