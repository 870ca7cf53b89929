import Velaris.Field.Service
import Velaris.Py.Json

/-!
# What the chain of a node covers

* `Canonical`   what is taken for granted of SHA-256 and of canonical JSON;
* `verifyFrom_cons`   one event that verifies;
* `RawOk`, `build_verifies`   what a node builds verifies, with the head of its last event;
* `Same`, `same_of_head`   two streams with one head agree event by event;
* `chain_binds`   both, for any genesis; `link_ne_genesis`, for that of a dispatch.
-/

namespace Field
open Py Base Handoff

namespace Subchain

/-- a digest and a canonical text each belong to one thing, and no text of an object ends with
another one's -/
structure Canonical (R : Runtime) : Prop where
  sha256_inj : Function.Injective R.sha256
  sha256_ne_nil : ∀ text, R.sha256 text ≠ ""
  dumps_inj : ∀ v w, R.dumps v = R.dumps w → v.sortKeys = w.sortKeys
  dumps_suffix : ∀ (d e : Dict) (s : String), R.dumps (.dict d) = s ++ R.dumps (.dict e) → s = ""

variable {R : Runtime}

/-! ## one event -/

structure Verifies (R : Runtime) (seq : Nat) (prev : String) (event : Event) (document : Value) :
    Prop where
  covered : eventDocument R event = some document
  placed : seqOf event = some (seq : Int)
  follows : event.get "prev_hash" = .str prev
  content : event.get "content_hash" = .str (link R document prev)
  payload : event.get "payload_sha256" = .str (payloadHash R (event.get "payload"))
  nonempty : payloadHash R (event.get "payload") ≠ ""

theorem verifyFrom_cons {seq : Nat} {prev head reason : String} {event : Event}
    {events : List Event} :
    verifyFrom R seq prev (event :: events) = some ⟨true, head, reason⟩ ↔
      ∃ document, Verifies R seq prev event document ∧
        verifyFrom R (seq + 1) (link R document prev) events = some ⟨true, head, reason⟩ := by
  constructor
  · intro h
    rw [verifyFrom] at h
    obtain ⟨n, hn, h⟩ := Option.bind_eq_some_iff.mp h
    split at h
    · cases h
    · rename_i hseq
      split at h
      · cases h
      · rename_i hprev
        obtain ⟨document, hdocument, h⟩ := Option.bind_eq_some_iff.mp h
        dsimp only at h
        split at h
        · cases h
        · rename_i hcontent
          split at h
          · cases h
          · rename_i hdeclared
            have hboth : (event.get "payload_sha256").truthy = true ∧
                event.get "payload_sha256" = .str (payloadHash R (event.get "payload")) := by
              simpa using hdeclared
            refine ⟨document, ⟨hdocument, ?_, not_not.mp hprev, not_not.mp hcontent, hboth.2, ?_⟩,
              h⟩
            · rw [hn, not_not.mp hseq]
            · intro hempty
              rw [hboth.2, hempty] at hboth
              exact absurd hboth.1 (by decide)
  · intro h
    obtain ⟨document, hv, h⟩ := h
    rw [verifyFrom, hv.placed, Option.bind_some, if_neg (by simp), if_neg (by simp [hv.follows]),
      hv.covered, Option.bind_some]
    dsimp only
    rw [if_neg (by simp [hv.content]), if_neg (by simp [hv.payload, Value.truthy, hv.nonempty])]
    exact h

/-! ## what a node builds -/

/-- `seq` at its place or left out, and a `payload_sha256` that is right or left out -/
structure RawOk (R : Runtime) (seq : Nat) (raw : Event) : Prop where
  seq : raw.has "seq" = true → seqOf raw = some (seq : Int)
  hash : (raw.get "payload_sha256").truthy = true →
    raw.get "payload_sha256" = .str (payloadHash R (raw.get "payload"))

def headOf (R : Runtime) (genesis : String) (events : List Event) : String :=
  (events.getLast?.map fun event => R.str (event.get "content_hash")).getD genesis

theorem eventDocument_set_content (event : Event) (v : Value) :
    eventDocument R (Dict.set "content_hash" v event) = eventDocument R event := by
  simp [eventDocument, seqOf, textOf, Dict.get_set]

theorem chainEvent_verifies (H : Canonical R) {seq : Nat} {raw : Event} (h : RawOk R seq raw)
    (prev : String) : ∃ event document, chainEvent R seq prev raw = some event ∧
      Verifies R seq prev event document := by
  have hseq : ((if raw.has "seq" then raw.get "seq" else .int seq : Value).or (.int 0)).toInt =
      some (seq : Int) := by
    split
    · exact h.seq ‹_›
    · rw [Value.or]
      split
      · rfl
      · rename_i hzero
        have hseq : seq = 0 := by simpa [Value.truthy] using hzero
        rw [hseq]
        rfl
  have hhash : ((raw.get "payload_sha256").or (.str (payloadHash R (raw.get "payload")))) =
      .str (payloadHash R (raw.get "payload")) := by
    rw [Value.or]
    split
    · exact h.hash ‹_›
    · rfl
  have hnonempty : payloadHash R (raw.get "payload") ≠ "" := H.sha256_ne_nil _
  obtain ⟨event, hevent⟩ : ∃ e, e = Dict.set "prev_hash" (.str prev)
      (Dict.set "payload_sha256" (.str (payloadHash R (raw.get "payload")))
        (Dict.set "seq" (if raw.has "seq" then raw.get "seq" else .int seq) raw)) := ⟨_, rfl⟩
  have hget : ∀ k, k ≠ "prev_hash" → k ≠ "payload_sha256" → k ≠ "seq" →
      event.get k = raw.get k := by
    intro k h₁ h₂ h₃
    rw [hevent, Dict.get_set, if_neg h₁, Dict.get_set, if_neg h₂, Dict.get_set, if_neg h₃]
  have hplaced : seqOf event = some (seq : Int) := by
    rw [seqOf, hevent]
    simpa [Dict.get_set] using hseq
  have hcovered : ∃ document, eventDocument R event = some document := by
    rw [eventDocument, hplaced]
    exact ⟨_, rfl⟩
  obtain ⟨document, hdocument⟩ := hcovered
  refine ⟨Dict.set "content_hash" (.str (link R document prev)) event, document, ?_, ?_⟩
  · unfold chainEvent
    dsimp only
    rw [Dict.get_set, if_neg (by decide), Dict.get_set, if_neg (by decide), hhash, ← hevent,
      hdocument]
    rfl
  · refine ⟨?_, ?_, ?_, ?_, ?_, ?_⟩
    · rw [eventDocument_set_content, hdocument]
    · rw [seqOf, Dict.get_set, if_neg (by decide)]
      exact hplaced
    · rw [Dict.get_set, if_neg (by decide), hevent, Dict.get_set, if_pos rfl]
    · rw [Dict.get_set, if_pos rfl]
    · rw [Dict.get_set, if_neg (by decide), Dict.get_set, if_neg (by decide),
        hget "payload" (by decide) (by decide) (by decide), hevent, Dict.get_set,
        if_neg (by decide), Dict.get_set, if_pos rfl]
    · rw [Dict.get_set, if_neg (by decide), hget "payload" (by decide) (by decide) (by decide)]
      exact hnonempty

theorem buildFrom_verifies (H : Canonical R) {seq : Nat} {raws : List Event}
    (h : ∀ i raw, raws[i]? = some raw → RawOk R (seq + i) raw) (prev : String) :
    ∃ out, buildFrom R seq prev raws = some out ∧
      verifyFrom R seq prev out = some ⟨true, headOf R prev out, ""⟩ := by
  induction raws generalizing seq prev with
  | nil => exact ⟨[], rfl, rfl⟩
  | cons raw raws ih =>
    have hraw : RawOk R seq raw := h 0 raw rfl
    obtain ⟨event, document, hevent, hv⟩ := chainEvent_verifies H hraw prev
    have hrest : ∀ i raw', raws[i]? = some raw' → RawOk R (seq + 1 + i) raw' := by
      intro i raw' hi
      rw [Nat.add_assoc, Nat.add_comm 1 i]
      exact h (i + 1) raw' hi
    obtain ⟨out, hout, hverify⟩ := ih hrest (link R document prev)
    refine ⟨event :: out, ?_, ?_⟩
    · rw [buildFrom, hevent, Option.bind_some, hv.content]
      show (buildFrom R (seq + 1) (link R document prev) raws).map _ = _
      rw [hout]
      rfl
    · have hhead : headOf R prev (event :: out) = headOf R (link R document prev) out := by
        rw [headOf, headOf, List.getLast?_cons]
        cases out.getLast? with
        | none =>
          show R.str (event.get "content_hash") = _
          rw [hv.content]
          rfl
        | some _ => rfl
      rw [hhead]
      exact verifyFrom_cons.mpr ⟨document, hv, hverify⟩

/-! ## what a head binds -/

theorem sortKeys_document {event : Event} {document : Value}
    (h : eventDocument R event = some document) : ∃ seq, seqOf event = some seq ∧
      document.sortKeys = .dict [("case_id", .str (textOf R event "case_id")),
        ("kind", .str (textOf R event "kind")), ("node_time", (event.get "node_time").sortKeys),
        ("payload_sha256", .str (textOf R event "payload_sha256")), ("seq", .int seq),
        ("target", (event.get "target").sortKeys)] := by
  obtain ⟨seq, hseq, rfl⟩ := Option.map_eq_some_iff.mp h
  refine ⟨seq, hseq, ?_⟩
  simp [Value.sortKeys, Value.sortKeysItems, List.insertionSort, Value.keyLE]

theorem document_dict {event : Event} {document : Value}
    (h : eventDocument R event = some document) : ∃ d, document = .dict d := by
  obtain ⟨seq, -, rfl⟩ := Option.map_eq_some_iff.mp h
  exact ⟨_, rfl⟩

theorem append_eq_append {a b c d : String} (h : a ++ b = c ++ d) :
    (∃ s, b = s ++ d ∧ c = a ++ s) ∨ ∃ s, d = s ++ b ∧ a = c ++ s := by
  have hlists : a.toList ++ b.toList = c.toList ++ d.toList := by
    rw [← String.toList_append, h, String.toList_append]
  rcases List.append_eq_append_iff.mp hlists with ⟨cs, hc, hb⟩ | ⟨cs, ha, hd⟩
  · refine Or.inl ⟨String.ofList cs, ?_, ?_⟩ <;> apply String.toList_inj.mp <;> simp [*]
  · refine Or.inr ⟨String.ofList cs, ?_, ?_⟩ <;> apply String.toList_inj.mp <;> simp [*]

theorem link_inj (H : Canonical R) {d e : Dict} {prev prev' : String}
    (h : link R (.dict d) prev = link R (.dict e) prev') :
    prev = prev' ∧ (Value.dict d).sortKeys = (Value.dict e).sortKeys := by
  have htexts : prev ++ R.dumps (.dict d) = prev' ++ R.dumps (.dict e) := H.sha256_inj h
  rcases append_eq_append htexts with ⟨s, hs, hprev⟩ | ⟨s, hs, hprev⟩
  · have hempty := H.dumps_suffix _ _ _ hs
    rw [hempty] at hs hprev
    rw [String.empty_append] at hs
    rw [String.append_empty] at hprev
    exact ⟨hprev.symm, H.dumps_inj _ _ hs⟩
  · have hempty := H.dumps_suffix _ _ _ hs
    rw [hempty] at hs hprev
    rw [String.empty_append] at hs
    rw [String.append_empty] at hprev
    exact ⟨hprev, (H.dumps_inj _ _ hs).symm⟩

/-- two events that the chain does not tell apart -/
structure Same (R : Runtime) (a b : Event) : Prop where
  seq : seqOf a = seqOf b
  caseId : textOf R a "case_id" = textOf R b "case_id"
  kind : textOf R a "kind" = textOf R b "kind"
  target : (a.get "target").sortKeys = (b.get "target").sortKeys
  payload : (a.get "payload").sortKeys = (b.get "payload").sortKeys
  nodeTime : (a.get "node_time").sortKeys = (b.get "node_time").sortKeys

theorem payload_text {seq : Nat} {prev : String} {event : Event} {document : Value}
    (h : Verifies R seq prev event document) :
    textOf R event "payload_sha256" = payloadHash R (event.get "payload") := by
  rw [textOf, h.payload, Value.or, if_pos (by simpa [Value.truthy] using h.nonempty)]
  rfl

theorem same_of_link (H : Canonical R) {n m : Nat} {p q : String} {a b : Event} {c d : Value}
    (ha : Verifies R n p a c) (hb : Verifies R m q b d) (h : link R c p = link R d q) :
    p = q ∧ n = m ∧ Same R a b := by
  obtain ⟨c', rfl⟩ := document_dict ha.covered
  obtain ⟨d', rfl⟩ := document_dict hb.covered
  obtain ⟨hpq, hdocs⟩ := link_inj H h
  obtain ⟨s, hs, hsorted⟩ := sortKeys_document ha.covered
  obtain ⟨s', hs', hsorted'⟩ := sortKeys_document hb.covered
  rw [hsorted, hsorted'] at hdocs
  simp only [Value.dict.injEq, List.cons.injEq, Prod.mk.injEq, Value.str.injEq, Value.int.injEq,
    true_and, and_true] at hdocs
  obtain ⟨hcase, hkind, htime, hhash, hseq, htarget⟩ := hdocs
  have hseqs : seqOf a = seqOf b := by rw [hs, hs', hseq]
  have hnm : (n : Int) = m := Option.some.inj (ha.placed.symm.trans (hseqs.trans hb.placed))
  rw [payload_text ha, payload_text hb] at hhash
  exact ⟨hpq, Int.ofNat.inj hnm, hseqs, hcase, hkind, htarget,
    H.dumps_inj _ _ (H.sha256_inj hhash), htime⟩

theorem last_link {n : Nat} {p head reason : String} {event : Event} {events : List Event}
    (h : verifyFrom R n p (event :: events) = some ⟨true, head, reason⟩) :
    ∃ last q document, Verifies R (n + events.length) q last document ∧
      head = link R document q := by
  induction events generalizing n p event with
  | nil =>
    obtain ⟨document, hv, hrest⟩ := verifyFrom_cons.mp h
    cases hrest
    exact ⟨event, p, document, hv, rfl⟩
  | cons event' events ih =>
    obtain ⟨document, -, hrest⟩ := verifyFrom_cons.mp h
    obtain ⟨last, q, document', hv, hhead⟩ := ih hrest
    refine ⟨last, q, document', ?_, hhead⟩
    rw [List.length_cons, show n + (events.length + 1) = n + 1 + events.length by omega]
    exact hv

theorem length_eq_of_head (H : Canonical R) {n : Nat} {p q head r s : String} {a b : Event}
    {as bs : List Event} (ha : verifyFrom R n p (a :: as) = some ⟨true, head, r⟩)
    (hb : verifyFrom R n q (b :: bs) = some ⟨true, head, s⟩) : as.length = bs.length := by
  obtain ⟨last, p', document, hv, hhead⟩ := last_link ha
  obtain ⟨last', q', document', hv', hhead'⟩ := last_link hb
  have hlen := (same_of_link H hv hv' (hhead.symm.trans hhead')).2.1
  omega

/-- **A head binds the stream**, from its last event to its first. -/
theorem same_of_head (H : Canonical R) {n : Nat} {p q head r s : String} {as bs : List Event}
    (hlen : as = [] ↔ bs = []) (ha : verifyFrom R n p as = some ⟨true, head, r⟩)
    (hb : verifyFrom R n q bs = some ⟨true, head, s⟩) : p = q ∧ List.Forall₂ (Same R) as bs := by
  induction as generalizing n p q bs with
  | nil =>
    obtain rfl : bs = [] := hlen.mp rfl
    cases ha
    cases hb
    exact ⟨rfl, .nil⟩
  | cons a as ih =>
    cases bs with
    | nil => exact absurd (hlen.mpr rfl) (by simp)
    | cons b bs =>
      have hlengths := length_eq_of_head H ha hb
      obtain ⟨c, hva, hresta⟩ := verifyFrom_cons.mp ha
      obtain ⟨d, hvb, hrestb⟩ := verifyFrom_cons.mp hb
      have hempty : as = [] ↔ bs = [] := by
        rw [← List.length_eq_zero_iff, ← List.length_eq_zero_iff, hlengths]
      obtain ⟨hlink, hrest⟩ := ih hempty hresta hrestb
      obtain ⟨hpq, -, hsame⟩ := same_of_link H hva hvb hlink
      exact ⟨hpq, .cons hsame hrest⟩

/-- **The chain binds the log.**  What a node builds verifies, and two streams that verify with one
head agree event by event, in what the chain reads of an event. -/
theorem chain_binds (R : Runtime) (H : Canonical R) (genesis : String) :
    (∀ raws : List Event, (∀ i raw, raws[i]? = some raw → RawOk R (i + 1) raw) →
      ∃ out, build R raws genesis = some out ∧
        verify R out genesis = some ⟨true, headOf R genesis out, ""⟩) ∧
    ∀ (as bs : List Event) (head r s : String), (as = [] ↔ bs = []) →
      verify R as genesis = some ⟨true, head, r⟩ → verify R bs genesis = some ⟨true, head, s⟩ →
      List.Forall₂ (Same R) as bs := by
  constructor
  · intro raws h
    refine buildFrom_verifies H ?_ genesis
    intro i raw hi
    rw [Nat.add_comm 1 i]
    exact h i raw hi
  · intro as bs head r s hlen ha hb
    exact (same_of_head H hlen ha hb).2

/-- digests that show their texts, and canonical texts -/
def plain : Runtime where
  repr := fun v => String.ofList (Json.text v)
  dumps := fun v => String.ofList (Json.text v.sortKeys)
  sha256 := fun text => "sha256:" ++ text
  fromisoformat := fun _ => none
  isoformat := fun _ => ""

theorem plain_dumps_suffix (d e : Dict) (s : String)
    (h : plain.dumps (.dict d) = s ++ plain.dumps (.dict e)) : s = "" := by
  have htexts := congrArg String.toList h
  rw [String.toList_append] at htexts
  have hnil : s.toList = [] := by
    have hsorted : Json.text (.dict ((Value.sortKeysItems d).insertionSort Value.keyLE)) =
        s.toList ++ Json.text (.dict ((Value.sortKeysItems e).insertionSort Value.keyLE)) := by
      simpa [plain, Value.sortKeys] using htexts
    exact Json.suffix_text hsorted
  exact String.toList_inj.mp hnil

theorem plain_canonical : Canonical plain where
  sha256_inj := fun _ _ h => String.append_right_inj _ |>.mp h
  sha256_ne_nil := fun text h => by simp [plain] at h
  dumps_inj := fun _ _ h => Json.text_inj (String.ofList_injective h)
  dumps_suffix := plain_dumps_suffix

def single (event : Event) : List Event := (build plain [event] "g").getD []

theorem single_binds : ∃ head, verify plain (single [("kind", .str "note")]) "g" =
      some ⟨true, head, ""⟩ ∧
    List.Forall₂ (Same plain) (single [("kind", .str "note")])
      (single [("seq", .int 1), ("kind", .str "note")]) := by
  have hok : ∀ i raw, [[("kind", Value.str "note")]][i]? = some raw → RawOk plain (i + 1) raw := by
    intro i raw hi
    cases i with
    | zero =>
      cases hi
      exact ⟨fun h => absurd h (by decide), fun h => absurd h (by decide)⟩
    | succ i => cases hi
  obtain ⟨out, hbuild, hverify⟩ := (chain_binds plain plain_canonical "g").1 _ hok
  have hout : single [("kind", .str "note")] = out := by rw [single, hbuild]; rfl
  have hsame : verify plain (single [("seq", .int 1), ("kind", .str "note")]) "g" =
      verify plain (single [("kind", .str "note")]) "g" := by decide +kernel
  rw [hout] at hsame ⊢
  refine ⟨_, hverify, ?_⟩
  have hempty : out = [] ↔ single [("seq", .int 1), ("kind", .str "note")] = [] := by
    rw [← hout]
    decide +kernel
  exact (chain_binds plain plain_canonical "g").2 _ _ _ _ _ hempty hverify (hsame.trans hverify)

def loopText : String :=
  "g" ++ plain.dumps (((single []).head?.bind (eventDocument plain)).getD .none)

/-- digests under which that chain leads back to its genesis -/
def looped : Runtime where
  repr := plain.repr
  dumps := plain.dumps
  sha256 := fun text => if text = loopText then "g" else "sha256:" ++ text
  fromisoformat := fun _ => none
  isoformat := fun _ => ""

theorem ne_digest (text : String) : "g" ≠ "sha256:" ++ text := by
  intro h
  have hchars := congrArg String.toList h
  rw [String.toList_append] at hchars
  exact absurd (List.cons.inj hchars).1 (by decide)

theorem looped_sha256_inj : Function.Injective looped.sha256 := by
  intro a b h
  simp only [looped] at h
  split at h
  · rename_i ha
    split at h
    · rename_i hb
      rw [ha, hb]
    · exact absurd h (ne_digest b)
  · split at h
    · exact absurd h.symm (ne_digest a)
    · exact plain_canonical.sha256_inj h

theorem looped_canonical : Canonical looped where
  sha256_inj := looped_sha256_inj
  sha256_ne_nil := by
    intro text
    simp only [looped]
    split
    · decide
    · exact plain_canonical.sha256_ne_nil text
  dumps_inj := plain_canonical.dumps_inj
  dumps_suffix := plain_canonical.dumps_suffix

/-- whether two events have the same value under a key -/
def Agree (a b : Event) : Prop :=
  ∀ k ∈ ["seq", "case_id", "kind", "target", "payload", "node_time"],
    (a.get k).eq (b.get k) = true

theorem not_always_bound :
    (¬ ∀ (R : Runtime), Canonical R → ∀ (genesis : String) (raws : List Event),
        (∀ i raw, raws[i]? = some raw → raw.has "seq" = true →
          seqOf raw = some ((i + 1 : Nat) : Int)) →
        ∃ out, build R raws genesis = some out ∧
          verify R out genesis = some ⟨true, headOf R genesis out, ""⟩) ∧
    (¬ ∀ (R : Runtime), Canonical R → ∀ (genesis : String) (as bs : List Event)
        (head r s : String), verify R as genesis = some ⟨true, head, r⟩ →
        verify R bs genesis = some ⟨true, head, s⟩ → as.length = bs.length) ∧
    ¬ ∀ (R : Runtime), Canonical R → ∀ (genesis : String) (as bs : List Event)
        (head r s : String), verify R as genesis = some ⟨true, head, r⟩ →
        verify R bs genesis = some ⟨true, head, s⟩ → List.Forall₂ Agree as bs := by
  refine ⟨fun h => ?_, fun h => ?_, fun h => ?_⟩
  · obtain ⟨out, hbuild, hverify⟩ := h plain plain_canonical "g"
      [[("payload_sha256", .str "x")]] (by
        intro i raw hi hseq
        cases i with
        | zero =>
          cases hi
          exact absurd hseq (by decide)
        | succ i => cases hi)
    have hfails : ((build plain [[("payload_sha256", .str "x")]] "g").bind fun out =>
        verify plain out "g").map (·.ok) = some false := by decide +kernel
    rw [hbuild, Option.bind_some, hverify] at hfails
    cases hfails
  · have hloop : (build looped [[]] "g").any (fun out =>
        verify looped out "g" = some ⟨true, "g", ""⟩ ∧ out.length = 1) = true := by decide +kernel
    obtain ⟨out, -, hout⟩ := (Option.any_eq_true _ _).mp hloop
    obtain ⟨hverify, hone⟩ := of_decide_eq_true hout
    have hlen := h looped looped_canonical "g" out [] "g" "" "" hverify rfl
    rw [hone] at hlen
    cases hlen
  · have hverify : verify plain (single []) "g" =
        verify plain (single [("case_id", .str "")]) "g" := by decide +kernel
    have hok : ∃ head, verify plain (single []) "g" = some ⟨true, head, ""⟩ :=
      ⟨headOf plain "g" (single []), by decide +kernel⟩
    obtain ⟨head, hhead⟩ := hok
    have hagree := h plain plain_canonical "g" _ _ _ _ _ hhead (hverify ▸ hhead)
    have hcases : (single []).map (·.get "case_id") = [.none] ∧
        (single [("case_id", .str "")]).map (·.get "case_id") = [.str ""] := by decide +kernel
    have hvalues : List.Forall₂ (fun u v : Value => u.eq v = true)
        ((single []).map (·.get "case_id"))
        ((single [("case_id", .str "")]).map (·.get "case_id")) :=
      List.forall₂_map_left_iff.mpr (List.forall₂_map_right_iff.mpr
        (hagree.imp fun a b hab => hab "case_id" (by decide)))
    rw [hcases.1, hcases.2] at hvalues
    cases hvalues with
    | cons hnone _ => exact absurd hnone (by decide)

/-! ## the genesis of a dispatch -/

theorem dispatch_genesis {R : Setup} {scan : Scan Case} {now : Int} {id : Uuid}
    {args : DispatchArgs} {hub : Hub} {node : Node} {row : Dispatch}
    (h : (dispatch R scan now id args hub node).map (·.row) = .ok row) :
    ∃ d : Dict, row.subchainGenesis = sha R (.dict d) ∧ d.length = 3 := by
  unfold dispatch at h
  split at h
  · cases h
  · split at h
    · cases h
    · cases h
      exact ⟨_, rfl, rfl⟩

/-- no stream leads back to the genesis that a dispatch hands out -/
theorem link_ne_genesis {R : Setup} (H : Canonical R.toRuntime) {scan : Scan Case} {now : Int}
    {id : Uuid} {args : DispatchArgs} {hub : Hub} {node : Node} {row : Dispatch}
    (hd : (dispatch R scan now id args hub node).map (·.row) = .ok row) {event : Event}
    {document : Value} (hevent : eventDocument R.toRuntime event = some document) (prev : String) :
    link R.toRuntime document prev ≠ row.subchainGenesis := by
  intro hlink
  obtain ⟨d, hgenesis, hlength⟩ := dispatch_genesis hd
  obtain ⟨e, rfl⟩ := document_dict hevent
  rw [hgenesis] at hlink
  have htexts : prev ++ R.dumps (.dict e) = R.dumps (.dict d) := H.sha256_inj hlink
  have hempty := H.dumps_suffix d e prev htexts.symm
  rw [hempty, String.empty_append] at htexts
  obtain ⟨seq, -, hsorted⟩ := sortKeys_document hevent
  have hdocs := H.dumps_inj _ _ htexts
  rw [hsorted, Value.sortKeys] at hdocs
  have hsix := congrArg List.length (Value.dict.inj hdocs)
  rw [List.length_insertionSort, Value.sortKeysItems_eq_map, List.length_map, hlength] at hsix
  cases hsix

end Subchain
end Field
