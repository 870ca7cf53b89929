import Velaris.HxGuard.Privileges
import Velaris.Py.Native
import Velaris.Py.Runtime

/-!
# A user as a cache key

`hxguard/service.py` freezes the privileges of a user, as they stand in the row of its access group,
and thaws them where they are evaluated.

* `freezePrivileges`, `thawPrivileges`   lists become tuples, and tuples lists;
* `Entry`, `evaluate`   the evaluator on entries as they are read;
* `Voice`   what an entry says about an action;
* `frozen_user_same`   what a decision does not depend on.
-/

namespace HxGuard.Frozen
open Py

/-! ## entries as they are read -/

abbrev Entry := List (String × Native)

/-- `d.get(k, default)` -/
def Entry.getOr (e : Entry) (k : String) (default : Native) : Native :=
  (e.lookup k).getD default

def entryOf (p : Privilege) : Entry :=
  [("resource", .str p.resource), ("actions", .list (p.actions.map .str)),
    ("effect", .str p.effect)]

section
variable (repr : Native → String)

/-- `str(v)` -/
def text : Native → String
  | .str s => s
  | v => repr v

def Entry.resource (e : Entry) : String := text repr (e.getOr "resource" (.str ""))

/-- `_verb_matches(v or [], verb)` -/
def listsVerb (v : Native) (verb : String) : Except Err Bool :=
  if !v.truthy then .ok false
  else
    match v.items? with
    | none => .error .typeError
    | some xs => .ok (Native.elem (.str WILDCARD) xs || Native.elem (.str verb) xs)

def grants (e : Entry) (action : String) : Except Err Bool :=
  if resourceMatches (e.resource repr) (resourceOf action) then
    listsVerb (e.getOr "actions" .none) (verbOf action)
  else .ok false

variable (P : Policy)

def Entry.denies (e : Entry) : Bool :=
  P.lower (text repr (e.getOr "effect" (.str "allow"))) = "deny"

def evaluate (action : String) (allowed : Bool) : List Entry → Except Err Bool
  | [] => .ok allowed
  | e :: es =>
    match grants repr e action with
    | .error err => .error err
    | .ok false => evaluate action allowed es
    | .ok true => if e.denies repr P then .ok false else evaluate action true es

/-- `_crosses_into_platform_namespace`, which reads the resource only -/
def Entry.crosses (e : Entry) : Bool :=
  crossesIntoPlatformNamespace { resource := e.resource repr, actions := [] }

def effectiveEntries (roles : List String) (privileges : List Entry) : List Entry :=
  (roles.flatMap (rolePrivileges P)).map entryOf ++ privileges.filter (·.crosses repr)

/-- `PrivilegeBackend.evaluate`; where it raises, `check` denies -/
def decides (roles : List String) (privileges : List Entry) (action : String) : Bool :=
  action ∈ P.actions.map (·.name) &&
    ("superadmin" ∈ roles ||
      (evaluate repr P action false (effectiveEntries repr P roles privileges)).toOption.getD false)

end

/-! ## freezing -/

/-- `sorted` of pairs whose keys differ -/
def sortedItems (items : Entry) : Entry := items.insertionSort (·.1 ≤ ·.1)

mutual

def freezeValue : Value → Native
  | .list xs => .tuple (freezeValues xs)
  | .dict items =>
    .tuple ((sortedItems (freezeItems items)).map fun i => .tuple [.str i.1, i.2])
  | .none => .none
  | .bool b => .bool b
  | .int n => .int n
  | .float q => .float q
  | .str s => .str s

def freezeValues : List Value → List Native
  | [] => []
  | x :: xs => freezeValue x :: freezeValues xs

def freezeItems : List (String × Value) → List (String × Native)
  | [] => []
  | (k, v) :: items => (k, freezeValue v) :: freezeItems items

end

mutual

def thawValue : Native → Native
  | .tuple xs => .list (thawValues xs)
  | v => v

def thawValues : List Native → List Native
  | [] => []
  | x :: xs => thawValue x :: thawValues xs

end

def Entry.tuple (e : Entry) : Native := .tuple (e.map fun i => .tuple [.str i.1, i.2])

def freezeEntry (p : Dict) : Entry := sortedItems (freezeItems p)

def thawEntry (e : Entry) : Entry := e.map fun i => (i.1, thawValue i.2)

def freezePrivileges (repr : Native → String) (privs : List Dict) : List Entry :=
  (privs.map freezeEntry).insertionSort fun a b => repr (Entry.tuple a) ≤ repr (Entry.tuple b)

def thawPrivileges (frozen : List Entry) : List Entry := frozen.map thawEntry

/-! ## users -/

structure User where
  userId : String
  roles : List String := []
  isAdmin : Bool := false
  /-- of the active access group -/
  privileges : List Dict := []

/-- a `Subject` of kind `user` -/
structure FrozenUser where
  id : String
  roles : List String
  isAdmin : Bool
  privileges : List Entry
  roleStoreGeneration : Nat

structure CacheKey where
  generation : Nat
  subject : FrozenUser
  action : String
  resource : List (String × String)

section
variable (repr : Native → String) (policy : Nat → Policy)

def cacheKey (generation : Nat) (s : FrozenUser) (action : String) (resource : Dict) :
    CacheKey where
  generation := generation
  subject := s
  action := action
  resource :=
    ((Native.ofItems resource).map fun i => (i.1, text repr i.2)).insertionSort (·.1 ≤ ·.1)

def subjectFromUser (generation : Nat) (u : User) : FrozenUser where
  id := u.userId
  roles := u.roles
  isAdmin := u.isAdmin
  privileges := freezePrivileges repr u.privileges
  roleStoreGeneration := generation

/-- the decision about the user as it is; `policy` is what a generation of the role store holds -/
def userAllows (generation : Nat) (u : User) (action : String) : Bool :=
  decides repr (policy generation) u.roles (u.privileges.map Native.ofItems) action

/-- the decision about a subject: `subject_allows` -/
def frozenAllows (s : FrozenUser) (action : String) : Bool :=
  decides repr (policy s.roleStoreGeneration) s.roles (thawPrivileges s.privileges) action

end

/-- `==` of two frozen entries -/
def Entry.Same : Entry → Entry → Prop :=
  List.Forall₂ fun i j => i.1 = j.1 ∧ i.2.eq j.2 = true

/-- `==` of two subjects -/
structure FrozenUser.Same (s s' : FrozenUser) : Prop where
  id : s.id = s'.id
  roles : s.roles = s'.roles
  isAdmin : s.isAdmin = s'.isAdmin
  privileges : List.Forall₂ Entry.Same s.privileges s'.privileges
  roleStoreGeneration : s.roleStoreGeneration = s'.roleStoreGeneration

/-- `==` of two keys -/
structure CacheKey.Same (k k' : CacheKey) : Prop where
  generation : k.generation = k'.generation
  subject : k.subject.Same k'.subject
  action : k.action = k'.action
  resource : k.resource = k'.resource

/-! ## what an entry says -/

inductive Voice where
  | silent | allow | deny | fails
  deriving DecidableEq

section
variable (repr : Native → String) (P : Policy)

def voice (action : String) (e : Entry) : Voice :=
  match grants repr e action with
  | .error _ => .fails
  | .ok false => .silent
  | .ok true => if e.denies repr P then .deny else .allow

def heard (action : String) (e : Entry) : Voice :=
  if e.crosses repr then voice repr P action e else .silent

def Says (roles : List String) (privileges : List Entry) (action : String) (v : Voice) : Prop :=
  (∃ r ∈ roles, ∃ p ∈ rolePrivileges P r, voice repr P action (entryOf p) = v) ∨
    ∃ e ∈ privileges, heard repr P action e = v

variable {repr P} {roles roles' : List String} {privileges privileges' : List Entry}
  {action : String}

theorem evaluate_iff (allowed : Bool) (es : List Entry) :
    evaluate repr P action allowed es = .ok true ↔
      (allowed = true ∨ ∃ e ∈ es, voice repr P action e = .allow) ∧
        ∀ e ∈ es, voice repr P action e ≠ .deny ∧ voice repr P action e ≠ .fails := by
  induction es generalizing allowed with
  | nil => simp [evaluate]
  | cons e es ih =>
    have hvoice : voice repr P action e = match grants repr e action with
      | .error _ => .fails
      | .ok false => .silent
      | .ok true => if e.denies repr P then .deny else .allow := rfl
    rw [evaluate]
    cases hg : grants repr e action with
    | error err =>
      rw [hg] at hvoice
      simp [hvoice]
    | ok b =>
      rw [hg] at hvoice
      cases b with
      | false => simp [ih, hvoice]
      | true =>
        cases hd : e.denies repr P with
        | true => simp [hvoice, hd]
        | false => simp [ih, hvoice, hd]

theorem says_iff {v : Voice} (hv : v ≠ .silent) :
    (∃ e ∈ effectiveEntries repr P roles privileges, voice repr P action e = v) ↔
      Says repr P roles privileges action v := by
  have hheard : (∃ e ∈ privileges.filter (·.crosses repr), voice repr P action e = v) ↔
      ∃ e ∈ privileges, heard repr P action e = v := by
    refine exists_congr fun e => ?_
    rw [List.mem_filter, and_assoc]
    refine and_congr_right fun _ => ?_
    unfold heard
    cases e.crosses repr with
    | true => simp
    | false => simp [hv.symm]
  rw [Says, ← hheard]
  simp only [effectiveEntries, List.mem_append, List.mem_map, List.mem_flatMap, or_and_right,
    exists_or]
  refine or_congr_left ?_
  constructor
  · rintro ⟨_, ⟨p, ⟨r, hr, hp⟩, rfl⟩, h⟩
    exact ⟨r, hr, p, hp, h⟩
  · rintro ⟨r, hr, p, hp, h⟩
    exact ⟨_, ⟨p, ⟨r, hr, hp⟩, rfl⟩, h⟩

theorem decides_iff :
    decides repr P roles privileges action = true ↔ action ∈ P.actions.map (·.name) ∧
      ("superadmin" ∈ roles ∨ Says repr P roles privileges action .allow ∧
        ¬ Says repr P roles privileges action .deny ∧
        ¬ Says repr P roles privileges action .fails) := by
  have hget : ∀ x : Except Err Bool, x.toOption.getD false = true ↔ x = .ok true := by
    intro x
    cases x with
    | error e => simp [Except.toOption]
    | ok b => simp [Except.toOption]
  unfold decides
  rw [Bool.and_eq_true, Bool.or_eq_true, decide_eq_true_eq, decide_eq_true_eq, hget, evaluate_iff,
    ← says_iff (by decide), ← says_iff (v := .deny) (by decide),
    ← says_iff (v := .fails) (by decide)]
  simp only [Bool.false_eq_true, false_or, forall₂_and, not_exists, not_and, ne_eq]

theorem decides_congr (hsuper : "superadmin" ∈ roles ↔ "superadmin" ∈ roles')
    (h : action ∈ P.actions.map (·.name) → ∀ v, v ≠ .silent →
      (Says repr P roles privileges action v ↔ Says repr P roles' privileges' action v)) :
    decides repr P roles privileges action = decides repr P roles' privileges' action := by
  rw [Bool.eq_iff_iff, decides_iff, decides_iff]
  refine and_congr_right fun hact => ?_
  rw [hsuper, h hact _ (by decide), h hact .deny (by decide), h hact .fails (by decide)]

end

/-! ## what a decision reads of an entry -/

/-- no value but a text prints as a resource of the registry, or as a deny -/
structure Plain (repr : Native → String) (P : Policy) : Prop where
  noResource : ∀ v : Native, v.str? = none → ∀ a ∈ P.actions,
    resourceMatches (repr v) (resourceOf a.name) = false
  noDeny : ∀ v : Native, v.str? = none → P.lower (repr v) ≠ "deny"

/-- what a decision reads of an entry is the same of both -/
structure Alike (e e' : Entry) : Prop where
  resource : (e.getOr "resource" (.str "")).str? = (e'.getOr "resource" (.str "")).str?
  effect : (e.getOr "effect" (.str "allow")).str? = (e'.getOr "effect" (.str "allow")).str?
  actions : ∀ verb,
    listsVerb (e.getOr "actions" .none) verb = listsVerb (e'.getOr "actions" .none) verb

section
variable {repr : Native → String} {P : Policy} {action : String} {e e' : Entry}

theorem text_of_some {v : Native} {s : String} (h : v.str? = some s) : text repr v = s := by
  cases v with
  | str t => exact Option.some.inj h
  | none | bool _ | int _ | float _ | list _ | tuple _ | dict _ => cases h

theorem text_of_none {v : Native} (h : v.str? = none) : text repr v = repr v := by
  cases v with
  | str t => cases h
  | none | bool _ | int _ | float _ | list _ | tuple _ | dict _ => simp [text]

theorem getOr_congr {α : Type} (f : Native → α) {k : String} (default : Native)
    (h : (e.lookup k).map f = (e'.lookup k).map f) :
    f (e.getOr k default) = f (e'.getOr k default) := by
  unfold Entry.getOr
  rw [← Option.getD_map f, ← Option.getD_map f, h]

theorem Alike.of_lookup (hstr : ∀ k, (e.lookup k).map Native.str? = (e'.lookup k).map Native.str?)
    (hverbs : ∀ verb, (e.lookup "actions").map (listsVerb · verb) =
      (e'.lookup "actions").map (listsVerb · verb)) : Alike e e' where
  resource := getOr_congr _ _ (hstr _)
  effect := getOr_congr _ _ (hstr _)
  actions verb := getOr_congr (listsVerb · verb) _ (hverbs verb)

theorem denies_congr (hplain : Plain repr P)
    (h : (e.getOr "effect" (.str "allow")).str? = (e'.getOr "effect" (.str "allow")).str?) :
    e.denies repr P = e'.denies repr P := by
  unfold Entry.denies
  cases hs : (e.getOr "effect" (.str "allow")).str? with
  | some s => rw [text_of_some hs, text_of_some (h ▸ hs)]
  | none =>
    rw [text_of_none hs, text_of_none (h ▸ hs), decide_eq_false (hplain.noDeny _ hs),
      decide_eq_false (hplain.noDeny _ (h ▸ hs))]

theorem grants_of_none (hplain : Plain repr P) (hact : action ∈ P.actions.map (·.name))
    (h : (e.getOr "resource" (.str "")).str? = none) : grants repr e action = .ok false := by
  obtain ⟨a, ha, rfl⟩ := List.mem_map.mp hact
  unfold grants Entry.resource
  rw [text_of_none h, hplain.noResource _ h a ha]
  rfl

theorem heard_of_grants (h : grants repr e action = .ok false) :
    heard repr P action e = .silent := by
  unfold heard voice
  rw [h]
  split <;> rfl

theorem heard_congr (hplain : Plain repr P) (hact : action ∈ P.actions.map (·.name))
    (h : Alike e e') : heard repr P action e = heard repr P action e' := by
  cases hs : (e.getOr "resource" (.str "")).str? with
  | none =>
    rw [heard_of_grants (grants_of_none hplain hact hs),
      heard_of_grants (grants_of_none hplain hact (h.resource ▸ hs))]
  | some s =>
    have hresource : e.resource repr = e'.resource repr := by
      unfold Entry.resource
      rw [text_of_some hs, text_of_some (h.resource ▸ hs)]
    have hgrants : grants repr e action = grants repr e' action := by
      unfold grants
      rw [hresource, h.actions]
    unfold heard voice Entry.crosses
    rw [hresource, hgrants, denies_congr hplain h.effect]

end

/-! ## thawing what was frozen -/

theorem lookup_orderedInsert (i : String × Native) (l : Entry) (k : String) :
    (l.orderedInsert (·.1 ≤ ·.1) i).lookup k = (i :: l).lookup k := by
  induction l with
  | nil => rfl
  | cons b l ih =>
    rw [List.orderedInsert_cons]
    split
    · rfl
    · rename_i hle
      -- `b` comes first because its key is another one
      have hne : b.1 ≠ i.1 := fun h => hle (h ▸ String.le_refl _)
      rw [List.lookup_cons, ih, List.lookup_cons, List.lookup_cons, List.lookup_cons]
      by_cases hb : k = b.1
      · have hi : (k == i.1) = false := by simpa [hb] using hne
        rw [hi, beq_iff_eq.mpr hb]
      · rw [beq_eq_false_iff_ne.mpr hb]

theorem lookup_sortedItems (l : Entry) (k : String) : (sortedItems l).lookup k = l.lookup k := by
  induction l with
  | nil => rfl
  | cons i l ih =>
    rw [sortedItems, List.insertionSort_cons, lookup_orderedInsert, List.lookup_cons,
      List.lookup_cons]
    rw [show (l.insertionSort (·.1 ≤ ·.1)).lookup k = l.lookup k from ih]

theorem freezeItems_eq (p : Dict) : freezeItems p = p.map fun i => (i.1, freezeValue i.2) := by
  induction p with
  | nil => rfl
  | cons item p ih => rw [freezeItems, ih]; rfl

theorem lookup_freezeItems (p : Dict) (k : String) :
    (freezeItems p).lookup k = (p.lookup k).map freezeValue := by
  rw [freezeItems_eq, Base.lookup_map_snd]

theorem lookup_thawEntry (e : Entry) (k : String) :
    (thawEntry e).lookup k = (e.lookup k).map thawValue := by
  rw [thawEntry, Base.lookup_map_snd]

theorem lookup_thawed (p : Dict) (k : String) :
    (thawEntry (freezeEntry p)).lookup k = (p.lookup k).map fun v => thawValue (freezeValue v) := by
  rw [lookup_thawEntry, freezeEntry, lookup_sortedItems, lookup_freezeItems, Option.map_map]
  rfl

theorem thawValues_eq (xs : List Native) : thawValues xs = xs.map thawValue := by
  induction xs with
  | nil => rfl
  | cons x xs ih => rw [thawValues, ih]; rfl

theorem freezeValues_eq (xs : List Value) : freezeValues xs = xs.map freezeValue := by
  induction xs with
  | nil => rfl
  | cons x xs ih => rw [freezeValues, ih]; rfl

theorem str?_thawValue (v : Native) : (thawValue v).str? = v.str? := by
  cases v <;> simp [thawValue, Native.str?]

theorem str?_thawed (v : Value) : (thawValue (freezeValue v)).str? = (Native.ofValue v).str? := by
  cases v <;> simp [freezeValue, thawValue, Native.ofValue, Native.str?]

/-! ## the verbs of an entry -/

theorem elem_str (s : String) (xs : List Native) :
    Native.elem (.str s) xs = (xs.map Native.str?).any (· == some s) := by
  unfold Native.elem
  rw [List.any_map]
  congr 1
  funext x
  cases x with
  | str t => simp [Native.eq, Native.str?, eq_comm]
  | none | bool _ | int _ | float _ | list _ | tuple _ | dict _ =>
    simp [Native.eq, Native.str?, Native.num?]

theorem listsVerb_list_congr {xs ys : List Native} (h : xs.map Native.str? = ys.map Native.str?)
    (verb : String) : listsVerb (.list xs) verb = listsVerb (.list ys) verb := by
  have hempty : xs.isEmpty = ys.isEmpty := by simpa using congrArg List.isEmpty h
  simp only [listsVerb, Native.truthy, Native.items?, hempty, elem_str, h]

theorem listsVerb_thawed {v : Value} (hflat : ∀ items, v ≠ .dict items) (verb : String) :
    listsVerb (Native.ofValue v) verb = listsVerb (thawValue (freezeValue v)) verb := by
  cases v with
  | list xs =>
    rw [Native.ofValue, freezeValue, thawValue, Native.ofValues_eq, thawValues_eq, freezeValues_eq,
      List.map_map]
    refine listsVerb_list_congr ?_ verb
    rw [List.map_map, List.map_map]
    exact List.map_congr_left fun x _ => (str?_thawed x).symm
  | dict items => exact absurd rfl (hflat items)
  | none | bool _ | int _ | float _ | str _ => simp [Native.ofValue, freezeValue, thawValue]

theorem listsVerb_thawed_dict (items : List (String × Value)) (verb : String) :
    listsVerb (thawValue (freezeValue (.dict items))) verb = .ok false := by
  rw [freezeValue, thawValue, thawValues_eq, List.map_map]
  have hnone : ∀ s : String, Native.elem (.str s) ((sortedItems (freezeItems items)).map
      (thawValue ∘ fun i => .tuple [.str i.1, i.2])) = false := by
    intro s
    rw [elem_str, List.map_map, List.any_map, List.any_eq_false]
    intro i _
    simp [thawValue, Native.str?]
  simp only [listsVerb, Native.truthy, Native.items?, hnone]
  simp

/-! ## frozen values as parts of a key -/

theorem hashableAll_eq (xs : List Native) : Native.hashableAll xs = xs.all Native.hashable := by
  induction xs with
  | nil => rfl
  | cons x xs ih => rw [Native.hashableAll, ih, List.all_cons]

mutual

theorem hashable_freezeValue : ∀ v : Value, (freezeValue v).hashable = true
  | .none | .bool _ | .int _ | .float _ | .str _ => by simp [freezeValue, Native.hashable]
  | .list xs => by
    rw [freezeValue, Native.hashable, freezeValues_eq, hashableAll_eq, List.all_map,
      List.all_eq_true]
    exact hashable_freezeValues xs
  | .dict items => by
    rw [freezeValue, Native.hashable, hashableAll_eq, List.all_map, List.all_eq_true]
    intro i hi
    have hmem : i ∈ freezeItems items := (List.perm_insertionSort _ _).mem_iff.mp hi
    simp [Native.hashable, Native.hashableAll, hashable_freezeItems items i hmem]

theorem hashable_freezeValues : ∀ xs : List Value, ∀ x ∈ xs, (freezeValue x).hashable = true
  | [], x, hx => nomatch hx
  | y :: ys, x, hx => by
    rcases List.mem_cons.mp hx with hx | hx
    · rw [hx]
      exact hashable_freezeValue y
    · exact hashable_freezeValues ys x hx

theorem hashable_freezeItems : ∀ items : List (String × Value), ∀ i ∈ freezeItems items,
    i.2.hashable = true
  | [], i, hi => nomatch hi
  | (k, v) :: items, i, hi => by
    rw [freezeItems] at hi
    rcases List.mem_cons.mp hi with hi | hi
    · rw [hi]
      exact hashable_freezeValue v
    · exact hashable_freezeItems items i hi

end

theorem str?_of_eq {v w : Native} (h : v.eq w = true) : v.str? = w.str? := by
  cases v <;> cases w <;> simp_all [Native.eq, Native.str?, Native.num?]

theorem num?_of_eq {v w : Native} {q : ℚ} (hv : v.num? = some q) (h : v.eq w = true) :
    w.num? = some q := by
  cases v <;> cases w <;> simp_all [Native.eq, Native.num?]

theorem listsVerb_of_num? {v : Native} {q : ℚ} (h : v.num? = some q) (verb : String) :
    listsVerb (thawValue v) verb = if q = 0 then .ok false else .error .typeError := by
  have htruthy : v.truthy = (q != 0) := by
    cases v <;> cases h
    case bool b => cases b <;> rfl
    case int n =>
      rw [Bool.eq_iff_iff]
      simp [Native.truthy]
    case float => rfl
  have hitems : v.items? = none := by cases v <;> cases h <;> rfl
  have hthaw : thawValue v = v := by cases v <;> cases h <;> simp [thawValue]
  rw [hthaw, listsVerb, htruthy, hitems]
  by_cases hq : q = 0
  · simp [hq]
  · simp [hq]

theorem map_str?_of_eqList {xs ys : List Native} (h : Native.eqList xs ys = true) :
    (xs.map thawValue).map Native.str? = (ys.map thawValue).map Native.str? := by
  induction xs generalizing ys with
  | nil =>
    cases ys with
    | nil => rfl
    | cons y ys => cases h
  | cons x xs ih =>
    cases ys with
    | nil => cases h
    | cons y ys =>
      rw [Native.eqList, Bool.and_eq_true] at h
      simp only [List.map_cons]
      rw [str?_thawValue, str?_thawValue, str?_of_eq h.1, ih h.2]

theorem listsVerb_thaw_congr {v w : Native} (hv : v.hashable = true) (h : v.eq w = true)
    (verb : String) : listsVerb (thawValue v) verb = listsVerb (thawValue w) verb := by
  cases hn : v.num? with
  | some q => rw [listsVerb_of_num? hn, listsVerb_of_num? (num?_of_eq hn h)]
  | none =>
    cases v with
    | bool _ | int _ | float _ => cases hn
    | list _ | dict _ => cases hv
    | none | str _ =>
      cases w <;> simp_all [Native.eq, Native.num?]
    | tuple xs =>
      cases w with
      | tuple ys =>
        rw [Native.eq] at h
        rw [thawValue, thawValue, thawValues_eq, thawValues_eq]
        exact listsVerb_list_congr (map_str?_of_eqList h) verb
      | none | bool _ | int _ | float _ | str _ | list _ | dict _ =>
        simp [Native.eq, Native.num?] at h

/-! ## entries, frozen and thawed -/

def Flat (p : Dict) : Prop := ∀ items, p.lookup "actions" ≠ some (.dict items)

theorem alike_thawed {p : Dict} (h : Flat p) :
    Alike (Native.ofItems p) (thawEntry (freezeEntry p)) := by
  refine .of_lookup (fun k => ?_) fun verb => ?_
  · rw [Native.lookup_ofItems, lookup_thawed, Option.map_map, Option.map_map]
    congr 1
    funext v
    exact (str?_thawed v).symm
  · rw [Native.lookup_ofItems, lookup_thawed, Option.map_map, Option.map_map]
    cases hv : p.lookup "actions" with
    | none => rfl
    | some v => exact congrArg some (listsVerb_thawed (fun items hd => h items (hd ▸ hv)) verb)

theorem lookup_same {e e' : Entry} (h : e.Same e') (k : String) :
    e.lookup k = none ∧ e'.lookup k = none ∨
      ∃ v w, e.lookup k = some v ∧ e'.lookup k = some w ∧ v.eq w = true := by
  induction h with
  | nil => exact .inl ⟨rfl, rfl⟩
  | @cons i j l l' hij _ ih =>
    rw [List.lookup_cons, List.lookup_cons, ← hij.1]
    cases k == i.1 with
    | true => exact .inr ⟨_, _, rfl, rfl, hij.2⟩
    | false => exact ih

theorem lookup_freezeEntry (p : Dict) (k : String) :
    (freezeEntry p).lookup k = (p.lookup k).map freezeValue := by
  rw [freezeEntry, lookup_sortedItems, lookup_freezeItems]

theorem alike_of_same {p p' : Dict} (h : (freezeEntry p).Same (freezeEntry p')) :
    Alike (thawEntry (freezeEntry p)) (thawEntry (freezeEntry p')) := by
  refine .of_lookup (fun k => ?_) fun verb => ?_
  · rw [lookup_thawEntry, lookup_thawEntry]
    rcases lookup_same h k with ⟨h₁, h₂⟩ | ⟨v, w, h₁, h₂, heq⟩
    · rw [h₁, h₂]
    · rw [h₁, h₂]
      simp only [Option.map_some, str?_thawValue, str?_of_eq heq]
  · rw [lookup_thawEntry, lookup_thawEntry]
    rcases lookup_same h "actions" with ⟨h₁, h₂⟩ | ⟨v, w, h₁, h₂, heq⟩
    · rw [h₁, h₂]
    · have hv : v.hashable = true := by
        rw [lookup_freezeEntry, Option.map_eq_some_iff] at h₁
        obtain ⟨v', -, rfl⟩ := h₁
        exact hashable_freezeValue v'
      rw [h₁, h₂]
      simp only [Option.map_some, listsVerb_thaw_congr hv heq]

theorem mem_thawed (repr : Native → String) (privs : List Dict) (e : Entry) :
    e ∈ thawPrivileges (freezePrivileges repr privs) ↔
      ∃ p ∈ privs, thawEntry (freezeEntry p) = e := by
  unfold thawPrivileges freezePrivileges
  rw [((List.perm_insertionSort _ _).map _).mem_iff, List.map_map, List.mem_map]
  rfl

/-! ## what a decision does not depend on -/

section
variable (repr : Native → String) (P : Policy)

def Unknown (p : Dict) : Prop := ∀ a ∈ P.actions, grants repr (Native.ofItems p) a.name = .ok false

def SameRoles (roles roles' : List String) : Prop :=
  ∀ r, r = "superadmin" ∨ rolePrivileges P r ≠ [] → (r ∈ roles ↔ r ∈ roles')

/-- the same entries, in any order, but for those the registry does not know -/
def SameEntries (privs privs' : List Dict) : Prop :=
  ∀ p, ¬ Unknown repr P p → (p ∈ privs ↔ p ∈ privs')

variable {repr P} {roles roles' : List String} {action : String}

theorem heard_raw_of_unknown {p : Dict} (hact : action ∈ P.actions.map (·.name))
    (h : Unknown repr P p) : heard repr P action (Native.ofItems p) = .silent := by
  obtain ⟨a, ha, rfl⟩ := List.mem_map.mp hact
  exact heard_of_grants (h a ha)

theorem heard_thawed_of_unknown (hplain : Plain repr P) {p : Dict}
    (hact : action ∈ P.actions.map (·.name)) (h : Unknown repr P p) :
    heard repr P action (thawEntry (freezeEntry p)) = .silent := by
  by_cases hflat : Flat p
  · rw [← heard_congr hplain hact (alike_thawed hflat), heard_raw_of_unknown hact h]
  · simp only [Flat, ne_eq, not_forall, not_not] at hflat
    obtain ⟨items, hdict⟩ := hflat
    refine heard_of_grants ?_
    have hget : (thawEntry (freezeEntry p)).getOr "actions" .none =
        thawValue (freezeValue (.dict items)) := by
      rw [Entry.getOr, lookup_thawed, hdict]
      rfl
    rw [grants, hget, listsVerb_thawed_dict, ite_self]

theorem exists_heard_congr {privs privs' : List Dict} (f : Dict → Entry)
    (hsilent : ∀ p, Unknown repr P p → heard repr P action (f p) = .silent)
    (h : SameEntries repr P privs privs') {v : Voice} (hv : v ≠ .silent) :
    (∃ p ∈ privs, heard repr P action (f p) = v) ↔
      ∃ p ∈ privs', heard repr P action (f p) = v := by
  refine exists_congr fun p => and_congr_left fun hp => h p fun hu => ?_
  exact hv (hp ▸ hsilent p hu)

theorem decides_of_same {privileges privileges' : List Entry} (hroles : SameRoles P roles roles')
    (h : action ∈ P.actions.map (·.name) → ∀ v, v ≠ .silent →
      ((∃ e ∈ privileges, heard repr P action e = v) ↔
        ∃ e ∈ privileges', heard repr P action e = v)) :
    decides repr P roles privileges action = decides repr P roles' privileges' action := by
  refine decides_congr (hroles _ (.inl rfl)) fun hact v hv => or_congr ?_ (h hact v hv)
  refine exists_congr fun r => and_congr_left fun ⟨p, hp, _⟩ => hroles r (.inr ?_)
  exact List.ne_nil_of_mem hp

theorem exists_thawed (privs : List Dict) (v : Voice) :
    (∃ e ∈ thawPrivileges (freezePrivileges repr privs), heard repr P action e = v) ↔
      ∃ p ∈ privs, heard repr P action (thawEntry (freezeEntry p)) = v := by
  constructor
  · rintro ⟨e, he, h⟩
    obtain ⟨p, hp, rfl⟩ := (mem_thawed repr privs e).mp he
    exact ⟨p, hp, h⟩
  · rintro ⟨p, hp, h⟩
    exact ⟨_, (mem_thawed repr privs _).mpr ⟨p, hp, rfl⟩, h⟩

theorem exists_raw (privs : List Dict) (v : Voice) :
    (∃ e ∈ privs.map Native.ofItems, heard repr P action e = v) ↔
      ∃ p ∈ privs, heard repr P action (Native.ofItems p) = v := by
  simp only [List.mem_map, exists_exists_and_eq_and]

theorem exists_mem_congr {α β : Type} {l : List α} {l' : List β} {p : α → Prop} {q : β → Prop}
    (h : List.Forall₂ (fun a b => p a ↔ q b) l l') : (∃ a ∈ l, p a) ↔ ∃ b ∈ l', q b := by
  induction h with
  | nil => simp
  | cons hab _ ih => simp [hab, ih]

theorem mem_freezePrivileges {privs : List Dict} {e : Entry}
    (h : e ∈ freezePrivileges repr privs) : ∃ p, freezeEntry p = e := by
  obtain ⟨p, -, hp⟩ := List.mem_map.mp ((List.perm_insertionSort _ _).mem_iff.mp h)
  exact ⟨p, hp⟩

theorem exists_of_same (hplain : Plain repr P) (hact : action ∈ P.actions.map (·.name))
    {privs privs' : List Dict} (v : Voice)
    (h : List.Forall₂ Entry.Same (freezePrivileges repr privs) (freezePrivileges repr privs')) :
    (∃ e ∈ thawPrivileges (freezePrivileges repr privs), heard repr P action e = v) ↔
      ∃ e ∈ thawPrivileges (freezePrivileges repr privs'), heard repr P action e = v := by
  refine exists_mem_congr ?_
  unfold thawPrivileges
  rw [List.forall₂_map_left_iff, List.forall₂_map_right_iff]
  rw [List.forall₂_iff_zip] at h ⊢
  refine ⟨h.1, fun hmem => ?_⟩
  obtain ⟨hl, hr⟩ := List.of_mem_zip hmem
  obtain ⟨p, rfl⟩ := mem_freezePrivileges hl
  obtain ⟨p', rfl⟩ := mem_freezePrivileges hr
  rw [heard_congr hplain hact (alike_of_same (h.2 hmem))]

end

section
variable {repr : Native → String} {policy : Nat → Policy}

/-- a frozen user is the same user, unless a dictionary stands for the verbs of an entry -/
theorem frozen_user_same (hplain : ∀ g, Plain repr (policy g)) :
    (∀ g (u : User), (∀ p ∈ u.privileges, Flat p) → ∀ action,
      frozenAllows repr policy (subjectFromUser repr g u) action =
        userAllows repr policy g u action) ∧
    (∀ g (u u' : User), SameRoles (policy g) u.roles u'.roles →
      SameEntries repr (policy g) u.privileges u'.privileges → ∀ action,
      userAllows repr policy g u action = userAllows repr policy g u' action ∧
        frozenAllows repr policy (subjectFromUser repr g u) action =
          frozenAllows repr policy (subjectFromUser repr g u') action) ∧
    (∀ g g' (u u' : User) n n' asked asked' resource resource',
      (cacheKey repr n (subjectFromUser repr g u) asked resource).Same
        (cacheKey repr n' (subjectFromUser repr g' u') asked' resource') → ∀ action,
      frozenAllows repr policy (subjectFromUser repr g u) action =
        frozenAllows repr policy (subjectFromUser repr g' u') action) := by
  refine ⟨fun g u hflat action => ?_, fun g u u' hroles hprivs action => ⟨?_, ?_⟩, ?_⟩
  · refine decides_of_same (P := policy g) (fun r _ => Iff.rfl) fun hact v _ => ?_
    refine (exists_thawed u.privileges v).trans (.trans ?_ (exists_raw u.privileges v).symm)
    refine exists_congr fun p => and_congr_right fun hp => ?_
    rw [heard_congr (hplain g) hact (alike_thawed (hflat p hp))]
  · refine decides_of_same hroles fun hact v hv => ?_
    refine (exists_raw u.privileges v).trans (.trans ?_ (exists_raw u'.privileges v).symm)
    exact exists_heard_congr _ (fun p => heard_raw_of_unknown hact) hprivs hv
  · refine decides_of_same hroles fun hact v hv => ?_
    refine (exists_thawed u.privileges v).trans (.trans ?_ (exists_thawed u'.privileges v).symm)
    exact exists_heard_congr _ (fun p => heard_thawed_of_unknown (hplain g) hact) hprivs hv
  · intro g g' u u' n n' asked asked' resource resource' h action
    have hg : g = g' := h.subject.roleStoreGeneration
    have hroles : u.roles = u'.roles := h.subject.roles
    subst hg
    refine decides_of_same (P := policy g) (fun r _ => by
      show r ∈ u.roles ↔ r ∈ u'.roles
      rw [hroles]) fun hact v _ => ?_
    exact exists_of_same (hplain g) hact v h.subject.privileges

end

/-! ## entries of the seeds and the role store -/

section
variable {repr : Native → String} {P : Policy} {action : String}

theorem listsVerb_texts (xs : List String) (verb : String) :
    listsVerb (.list (xs.map .str)) verb = .ok (verbMatches xs verb) := by
  have helem : ∀ s, Native.elem (.str s) (xs.map .str) = decide (s ∈ xs) := by
    intro s
    rw [elem_str, List.map_map, List.any_map, Bool.eq_iff_iff, List.any_eq_true, decide_eq_true_eq]
    simp [Native.str?]
  simp only [listsVerb, Native.truthy, Native.items?, helem, verbMatches]
  cases xs <;> simp

theorem grants_entryOf (p : Privilege) :
    grants repr (entryOf p) action = .ok (privilegeGrants p action) := by
  have hresource : Entry.resource repr (entryOf p) = p.resource := rfl
  have hactions : (entryOf p).getOr "actions" .none = .list (p.actions.map .str) := rfl
  rw [grants, hresource, hactions, listsVerb_texts, privilegeGrants]
  cases resourceMatches p.resource (resourceOf action) <;> rfl

theorem evaluate_entryOf (allowed : Bool) (ps : List Privilege) :
    evaluate repr P action allowed (ps.map entryOf) =
      .ok (evaluatePrivileges.go P action allowed ps) := by
  induction ps generalizing allowed with
  | nil => rfl
  | cons p ps ih =>
    have hdenies : (entryOf p).denies repr P = P.denies p := rfl
    rw [List.map_cons, evaluate, grants_entryOf, evaluatePrivileges.go, hdenies]
    cases privilegeGrants p action with
    | false => exact ih allowed
    | true =>
      cases P.denies p with
      | true => rfl
      | false => exact ih true

/-- on such entries the decision is that of the backend -/
theorem decides_entryOf (id : String) (roles : List String) (privs : List Privilege) :
    decides repr P roles (privs.map entryOf) action =
      subjectAllows P { kind := "user", id := id, roles := roles, privileges := privs } action := by
  have hcrosses : (privs.map entryOf).filter (·.crosses repr) =
      (privs.filter crossesIntoPlatformNamespace).map entryOf := by
    rw [List.filter_map]
    rfl
  rw [Bool.eq_iff_iff, allows_iff rfl, decides, effectiveEntries, hcrosses, ← List.map_append,
    evaluate_entryOf]
  simp [evaluatePrivileges, effectivePrivileges, Except.toOption]

end

/-! ## an entry that lists its verbs -/

mutual

/-- `repr`, of tuples of texts -/
def spelled : Native → String
  | .str s => "'" ++ s ++ "'"
  | .tuple xs => "(" ++ spelledAll xs ++ (if xs.length = 1 then ",)" else ")")
  | _ => "None"

def spelledAll : List Native → String
  | [] => ""
  | [x] => spelled x
  | x :: xs => spelled x ++ ", " ++ spelledAll xs

end

theorem spelled_starts {v : Native} (h : v.str? = none) :
    ∃ c rest, (spelled v).toList = c :: rest ∧ c ∈ ['(', 'N'] := by
  cases v with
  | str s => cases h
  | tuple xs =>
    refine ⟨'(', (spelledAll xs ++ (if xs.length = 1 then ",)" else ")")).toList, ?_, by decide⟩
    rw [spelled]
    simp
  | none | bool _ | int _ | float _ | list _ | dict _ =>
    exact ⟨'N', "one".toList, by simp [spelled], by decide⟩

theorem resourceMatches_of_starts {s r : String} {c d : Char} {rest seg : List Char}
    {segs : List (List Char)} (hs : s.toList = c :: rest) (hwild : c ≠ '*') (hdot : c ≠ '.')
    (hr : segments r = (d :: seg) :: segs) (hne : c ≠ d) : resourceMatches s r = false := by
  obtain ⟨seg', segs', hsplit⟩ : ∃ seg' segs', segments s = (c :: seg') :: segs' := by
    unfold segments List.splitOn
    rw [hs, List.splitOnP_cons_eq_if_modifyHead, if_neg (by simpa using hdot)]
    cases h : rest.splitOnP (· == '.') with
    | nil => exact absurd h (List.splitOnP_ne_nil _ _)
    | cons x xs => exact ⟨x, xs, rfl⟩
  have hstar : s ≠ WILDCARD := by
    rintro rfl
    exact hwild (List.cons.inj hs).1.symm
  unfold resourceMatches
  rw [if_neg hstar, hsplit, hr]
  cases segs' with
  | nil =>
    have hlast : (c :: seg') ≠ ['*'] := fun h => hwild (List.cons.inj h).1
    simp [hne, hlast]
  | cons x xs => simp [hne, Ne.symm hne]

def ledgerPolicy : Policy where
  lower := id
  actions := [{ name := "compliance.ledger.read", legacyRoles := [] }]
  stored := fun _ => []

theorem ledgerPolicy_plain : Plain spelled ledgerPolicy where
  noResource v hv a ha := by
    obtain ⟨c, rest, hs, hc⟩ := spelled_starts hv
    obtain rfl := List.mem_singleton.mp ha
    have hsegments : segments (resourceOf "compliance.ledger.read") =
      ('c' :: "ompliance".toList) :: ["ledger".toList] := by decide +kernel
    refine resourceMatches_of_starts hs ?_ ?_ hsegments ?_ <;>
      rcases List.mem_pair.mp hc with rfl | rfl <;> decide
  noDeny v hv h := by
    obtain ⟨c, rest, hs, hc⟩ := spelled_starts hv
    have hs' : "deny".toList = c :: rest := (congrArg String.toList h).symm.trans hs
    rcases List.mem_pair.mp hc with rfl | rfl <;> cases hs'

def reads : Dict :=
  [("resource", .str "compliance.ledger"), ("actions", .list [.str "read"])]

def anywhere : Dict := [("resource", .str "*"), ("actions", .list [.str "write"])]

def reader : User := { userId := "u1", privileges := [reads] }

theorem frozen_reader_same :
    frozenAllows spelled (fun _ => ledgerPolicy) (subjectFromUser spelled 0 reader)
        "compliance.ledger.read" =
      userAllows spelled (fun _ => ledgerPolicy) 0 reader "compliance.ledger.read" ∧
    userAllows spelled (fun _ => ledgerPolicy) 0 reader "compliance.ledger.read" =
      userAllows spelled (fun _ => ledgerPolicy) 0
        { userId := "u2", roles := ["guest"], privileges := [anywhere, reads, reads] }
        "compliance.ledger.read" ∧
    userAllows spelled (fun _ => ledgerPolicy) 0 reader "compliance.ledger.read" = true := by
  have hsame := @frozen_user_same spelled (fun _ => ledgerPolicy) fun _ => ledgerPolicy_plain
  refine ⟨hsame.1 0 reader ?_ _, (hsame.2.1 0 _ _ ?_ ?_ _).1, by decide +kernel⟩
  · intro p hp items h
    obtain rfl := List.mem_singleton.mp hp
    cases h
  · have hguest : rolePrivileges ledgerPolicy "guest" = [] := by decide +kernel
    intro r hr
    constructor
    · intro h
      cases h
    · intro h
      obtain rfl := List.mem_singleton.mp h
      simp [hguest] at hr
  · have hunknown : Unknown spelled ledgerPolicy anywhere := by
      intro a ha
      obtain rfl := List.mem_singleton.mp ha
      decide +kernel
    intro p hp
    have hne : p ≠ anywhere := fun h => hp (h ▸ hunknown)
    simp [reader, hne]

/-- its verbs are the keys of a dictionary, which is not thawed -/
def keyed : User where
  userId := "u1"
  privileges :=
    [[("resource", .str "compliance.ledger"), ("actions", .dict [("read", .str "all")])]]

theorem not_frozen_same : ¬ ∀ (u : User) (action : String),
    frozenAllows spelled (fun _ => ledgerPolicy) (subjectFromUser spelled 0 u) action =
      userAllows spelled (fun _ => ledgerPolicy) 0 u action := by
  intro h
  have hallowed : userAllows spelled (fun _ => ledgerPolicy) 0 keyed "compliance.ledger.read" =
    true := by decide +kernel
  have hdenied : frozenAllows spelled (fun _ => ledgerPolicy) (subjectFromUser spelled 0 keyed)
    "compliance.ledger.read" = false := by decide +kernel
  rw [← h, hdenied] at hallowed
  cases hallowed

end HxGuard.Frozen
