import Krishiv.Ivm.Scan

/-!
# The order of the views in a tick

`toposort_views` runs the queue algorithm on the edges "reads" between the registered views and
appends whatever a cycle left over. Every view is listed once; without cycles a view comes after the
views it reads, if the names are in lower case (`wellOrdered_iff`): names are compared as they are
written with what the queries read, which is in lower case.

A registered view is stored under the name in its specification (`WellNamed`), and a hash map lists
every key once (`ListsKeys`).
-/

namespace Krishiv.Ivm

open Krishiv.Delta IncrementalViewSpec List

variable {P : Type}

/-- Every view is stored under its own name. -/
def WellNamed (s : Inner P) : Prop :=
  ∀ n view, s.views.lookup n = some view → view.spec.name = n

/-- The order in which a hash map is listed is some order of its keys. -/
def ListsKeys (env : Env P) : Prop := ∀ l, (env.hashOrder l).Perm l

/-! ## The specifications of a tick -/

/-- A specification is found under its name. -/
lemma find_name {specs : List IncrementalViewSpec} (hn : (specs.map name).Nodup)
    {spec : IncrementalViewSpec} (hs : spec ∈ specs) : (specs.find? fun x => x.name = spec.name) = some spec := by
  induction specs with
  | nil => cases hs
  | cons x xs ih =>
    rw [map_cons, nodup_cons] at hn
    rcases mem_cons.mp hs with rfl | hs
    · exact find?_cons_of_pos (by simp)
    · rw [find?_cons_of_neg, ih hn.2 hs]
      simpa using fun h : x.name = spec.name => hn.1 (h ▸ mem_map_of_mem hs)

lemma find_name_none {specs : List IncrementalViewSpec} {n : String} (hn : n ∉ specs.map name) :
    (specs.find? fun x => x.name = n) = none := by
  rw [find?_eq_none]
  intro x hx
  rw [decide_eq_true_eq]
  rintro rfl
  exact hn (mem_map_of_mem hx)

variable {s : Inner P}

lemma WellNamed.drain_names [PlanLogic P] (env : Env P) (h : WellNamed s) :
    (drain env s).2.specs.map name = (env.hashOrder s.views.keys).filter fun n => (s.views.lookup n).isSome := by
  show ((env.hashOrder s.views.keys).filterMap _).map _ = _
  induction env.hashOrder s.views.keys with
  | nil => rfl
  | cons n names ih =>
    cases hn : s.views.lookup n with
    | none => simp [hn, ih]
    | some view => simp [hn, ih, h n view hn]

lemma WellNamed.nodup_names [PlanLogic P] {env : Env P} (h : WellNamed s) (hk : ListsKeys env) :
    ((drain env s).2.specs.map name).Nodup := by
  rw [h.drain_names env]
  exact ((hk s.views.keys).nodup_iff.mpr s.views.keys_nodup).filter _

lemma WellNamed.mem_names [PlanLogic P] {env : Env P} (h : WellNamed s) (hk : ListsKeys env)
    (n : String) : n ∈ (drain env s).2.specs.map name ↔ (s.views.lookup n).isSome := by
  rw [h.drain_names env, mem_filter, (hk s.views.keys).mem_iff, ← AList.mem_keys, AList.lookup_isSome]
  exact and_self_iff

/-- Looking a specification up by name is looking the view up. -/
lemma WellNamed.find_spec [PlanLogic P] {env : Env P} (h : WellNamed s) (hk : ListsKeys env)
    (n : String) : ((drain env s).2.specs.find? fun spec => spec.name = n) =
      (s.views.lookup n).map IncrementalView.spec := by
  cases hn : s.views.lookup n with
  | none => exact find_name_none fun hmem => by simpa [hn] using (h.mem_names hk n).mp hmem
  | some view =>
    obtain ⟨spec, hs, hname⟩ := mem_map.mp ((h.mem_names hk n).mpr (by rw [hn]; rfl))
    rw [← hname, find_name (h.nodup_names hk) hs]
    -- the specification is that of a view of its own name
    obtain ⟨m, -, hm⟩ := mem_filterMap.mp
      (show spec ∈ (env.hashOrder s.views.keys).filterMap fun m => (s.views.lookup m).map IncrementalView.spec from hs)
    obtain ⟨view', hview', rfl⟩ := Option.map_eq_some_iff.mp hm
    rw [h m view' hview'] at hname
    rw [← hname, hview'] at hn
    cases hn
    rfl

/-! ## The edges -/

section Edges

variable (env : Env P) (deps : NameMap (List String)) (specs : List IncrementalViewSpec)

/-- The views that the view of a name waits for. -/
def predsOf (n : String) : List String :=
  ((specs.find? fun spec => spec.name = n).map (viewPreds env deps (specs.map name))).getD []

/-- The edges of the graph, from a view to the views that read it. -/
def edgesOf (names : List String) : List (String × String) :=
  (specs.map fun spec => (viewPreds env deps names spec).map (·, spec.name)).flatten

/-- Edges into a name come from the one specification of that name. -/
lemma edges_into (names : List String) (hn : (specs.map name).Nodup) (b : String) :
    (edgesOf env deps specs names).filter (fun e => e.2 = b) =
      (((specs.find? fun spec => spec.name = b).map (viewPreds env deps names)).getD []).map (·, b) := by
  induction specs with
  | nil => rfl
  | cons spec specs ih =>
    rw [map_cons, nodup_cons] at hn
    have hcons : edgesOf env deps (spec :: specs) names =
        (viewPreds env deps names spec).map (·, spec.name) ++ edgesOf env deps specs names := rfl
    rw [hcons, filter_append, ih hn.2]
    by_cases hb : spec.name = b
    · -- the edges of this specification are kept, no later one has its name
      rw [find_name_none (hb ▸ hn.1), find?_cons_of_pos (by simpa using hb), hb]
      simp
    rw [find?_cons_of_neg (by simpa using hb)]
    have hnone : ((viewPreds env deps names spec).map (·, spec.name)).filter (fun e => e.2 = b) = [] := by
      rw [filter_eq_nil_iff]
      intro e he
      obtain ⟨a, -, rfl⟩ := mem_map.mp he
      simpa using hb
    rw [hnone, nil_append]

/-- What the queue algorithm lists. -/
def kahnOrder : List String :=
  let names := specs.map name
  let edges := edgesOf env deps specs names
  Kahn.loop (fun a => (edges.filter fun e => e.1 = a).map Prod.snd) names.length
    (env.hashOrder (names.filter fun b => (edges.filter fun e => e.2 = b).length = 0))
    fun b => (edges.filter fun e => e.2 = b).length

lemma toposortViews_eq : toposortViews env deps specs = kahnOrder env deps specs ++
    (specs.map name).filter fun n => n ∉ kahnOrder env deps specs := rfl

/-! ## Upstream first -/

/-- The view `b` reads the view `a`, whose name may be written in any letter case. -/
def Reads (a b : String) : Prop :=
  a ∈ specs.map name ∧ ∃ spec ∈ specs, spec.name = b ∧
    env.toLowercase a ∈ (deps.lookup b).getD (env.sqlIdentifiers spec.bodySql)

/-- Every view is listed once, and if they do not read each other in a circle, after the views it
reads. -/
def WellOrdered : Prop :=
  (toposortViews env deps specs).Perm (specs.map name) ∧
    (WellFounded (Reads env deps specs) → ∀ l b l', toposortViews env deps specs = l ++ b :: l' →
      ∀ a, Reads env deps specs a b → a ∈ l)

/-- So it is for all dependencies in lower case and every order of the hash map. -/
def AlwaysWellOrdered : Prop :=
  ∀ deps order, (∀ n refs, deps.lookup n = some refs → ∀ t ∈ refs, env.toLowercase t = t) →
    ListsKeys { env with hashOrder := order } → WellOrdered { env with hashOrder := order } deps specs

variable {specs}

section

variable (hk : ListsKeys env) (hn : (specs.map name).Nodup)

include hk hn

lemma kahnOrder_sorted : Kahn.Sorted (specs.map name) (predsOf env deps specs) (kahnOrder env deps specs) := by
  have hdeg : ∀ b, ((edgesOf env deps specs (specs.map name)).filter
      fun e => e.2 = b).length = (predsOf env deps specs b).length := by
    intro b
    rw [edges_into env deps specs _ hn b, length_map]
    rfl
  apply Kahn.loop_initial_sorted hn
  · intro a _ b
    -- both sides count the edge `(a, b)`
    have hcount : (((edgesOf env deps specs (specs.map name)).filter fun e => e.1 = a).map Prod.snd).count b =
        (((edgesOf env deps specs (specs.map name)).filter fun e => e.2 = b).map Prod.fst).count a := by
      rw [count_eq_countP, count_eq_countP, countP_map, countP_map, countP_filter, countP_filter]
      apply countP_congr
      intro e _
      simp [and_comm]
    rw [hcount, edges_into env deps specs _ hn b, map_map]
    have hfst : (Prod.fst ∘ fun x => (x, b)) = (id : String → String) := rfl
    rw [hfst, map_id]
    split
    · rfl
    · next hb =>
      rw [find_name_none hb]
      rfl
  · refine (hk _).trans ?_
    simp only [hdeg]
    exact List.Perm.refl _
  · intro b _
    exact hdeg b

lemma nodup_toposortViews : (toposortViews env deps specs).Nodup := by
  have hs := kahnOrder_sorted env deps hk hn
  rw [toposortViews_eq]
  refine nodup_append.mpr ⟨hs.nodup, hn.filter _, ?_⟩
  intro a ha b hb hab
  subst hab
  have hnot := (mem_filter.mp hb).2
  simp only [decide_eq_true_eq] at hnot
  exact hnot ha

lemma mem_toposortViews (n : String) : n ∈ toposortViews env deps specs ↔ n ∈ specs.map name := by
  have hs := kahnOrder_sorted env deps hk hn
  rw [toposortViews_eq, mem_append, mem_filter]
  constructor
  · rintro (h | ⟨h, -⟩)
    · exact hs.sub n h
    · exact h
  intro h
  by_cases ho : n ∈ kahnOrder env deps specs
  · exact .inl ho
  · exact .inr ⟨h, by simpa using ho⟩

lemma toposortViews_perm : (toposortViews env deps specs).Perm (specs.map name) :=
  (perm_ext_iff_of_nodup (nodup_toposortViews env deps hk hn) hn).mpr (mem_toposortViews env deps hk hn)

/-- With names in lower case the edges are the reads. -/
lemma wellOrdered_of_lowercase (hlow : ∀ spec ∈ specs, env.toLowercase spec.name = spec.name) :
    WellOrdered env deps specs := by
  refine ⟨toposortViews_perm env deps hk hn, fun hwf l b l' heq a hread => ?_⟩
  have hsorted := kahnOrder_sorted env deps hk hn
  have hpreds : ∀ b ∈ specs.map name, ∀ a, a ∈ predsOf env deps specs b ↔ Reads env deps specs a b := by
    rintro b hb a
    obtain ⟨spec, hs, rfl⟩ := mem_map.mp hb
    rw [predsOf, find_name hn hs, Option.map_some, Option.getD_some, viewPreds, mem_filter,
      decide_eq_true_iff]
    constructor
    · rintro ⟨hdep, ha, -⟩
      obtain ⟨x, hx, rfl⟩ := mem_map.mp ha
      exact ⟨ha, spec, hs, rfl, by rwa [hlow x hx]⟩
    intro hread
    obtain ⟨ha, spec', hs', hname, hdep⟩ := id hread
    obtain ⟨x, hx, rfl⟩ := mem_map.mp ha
    rw [inj_on_of_nodup_map hn hs' hs hname, hlow x hx] at hdep
    exact ⟨hdep, ha, fun hself => hwf.irrefl.irrefl _ (hself ▸ hread)⟩
  have hall := hsorted.complete hwf fun b hb a ha =>
    ⟨((hpreds b hb a).mp ha).1, (hpreds b hb a).mp ha⟩
  have hrest : (specs.map name).filter (fun n => n ∉ kahnOrder env deps specs) = [] :=
    filter_eq_nil_iff.mpr fun n hn => by simpa using hall n hn
  rw [toposortViews_eq, hrest, append_nil] at heq
  have hb : b ∈ specs.map name := hsorted.sub b (heq ▸ by simp)
  exact hsorted.before l b l' heq a ((hpreds b hb a).mpr hread)

end

/-- Only the view `down` reads something. -/
def oneReader (specs : List IncrementalViewSpec) (down ref : String) : NameMap (List String) :=
  specs.foldr (fun x m => m.insert x.name (if x.name = down then [ref] else [])) ∅

lemma lookup_oneReader (down ref n : String) : (oneReader specs down ref).lookup n =
    if n ∈ specs.map name then some (if n = down then [ref] else []) else none := by
  induction specs with
  | nil => rfl
  | cons x xs ih =>
    show (AList.insert x.name _ (oneReader xs down ref)).lookup n = _
    by_cases hx : n = x.name
    · rw [hx, AList.lookup_insert, map_cons, if_pos mem_cons_self]
    · rw [AList.lookup_insert_ne hx, ih]
      simp [hx]

variable {ref : String}

lemma reads_oneReader {down a b : String} (h : Reads env (oneReader specs down ref) specs a b) :
    b = down ∧ env.toLowercase a = ref := by
  obtain ⟨-, spec, hs, rfl, hread⟩ := h
  rw [lookup_oneReader, if_pos (mem_map_of_mem hs), Option.getD_some] at hread
  simpa using hread

/-- No chain of reads is longer than one. -/
lemma oneReader_wf (specs : List IncrementalViewSpec) {down : String} (h : env.toLowercase down ≠ ref) :
    WellFounded (Reads env (oneReader specs down ref) specs) := by
  refine ⟨fun b => ⟨b, fun a hab => ⟨a, fun c hca => absurd ?_ h⟩⟩⟩
  rw [← (reads_oneReader env hca).1, (reads_oneReader env hab).2]

/-- A listing with one name in front. -/
def listFirst (n : String) (l : List String) : List String := if n ∈ l then n :: l.erase n else l

lemma listFirst_perm (n : String) (l : List String) : (listFirst n l).Perm l := by
  unfold listFirst
  split
  · exact (perm_cons_erase ‹_›).symm
  · rfl

/-- A reader whose only reference is no name as written may be listed first. -/
lemma toposortViews_reader_first (hn : (specs.map name).Nodup)
    {down : IncrementalViewSpec} (hdown : down ∈ specs) (hmissed : ref ∉ specs.map name) :
    ∃ rest, toposortViews { env with hashOrder := listFirst down.name } (oneReader specs down.name ref) specs =
      down.name :: rest := by
  suffices hfirst : ∃ rest, kahnOrder { env with hashOrder := listFirst down.name }
      (oneReader specs down.name ref) specs = down.name :: rest by
    obtain ⟨rest, hfirst⟩ := hfirst
    exact ⟨_, by rw [toposortViews_eq, hfirst, cons_append]⟩
  unfold kahnOrder
  dsimp only
  have hmem := mem_map_of_mem (f := name) hdown
  generalize hdeps : oneReader specs down.name ref = deps
  generalize hnames : specs.map name = names at hmem hmissed
  have hdeg : ((edgesOf env deps specs names).filter fun e => e.2 = down.name).length = 0 := by
    rw [edges_into env deps specs names hn, find_name hn hdown, Option.map_some, Option.getD_some, viewPreds,
      ← hdeps, lookup_oneReader, hnames, if_pos hmem, if_pos rfl, Option.getD_some,
      filter_cons_of_neg (by simp [hmissed])]
    rfl
  obtain ⟨k, hk⟩ := Nat.exists_eq_succ_of_ne_zero (length_pos_of_mem hmem).ne'
  rw [hk, show listFirst down.name (names.filter _) = _ from
    if_pos (mem_filter.mpr ⟨hmem, decide_eq_true hdeg⟩)]
  exact ⟨_, rfl⟩

/-- Exactly the sets of views whose names are in lower case are listed as they should, and sets of one
view. -/
theorem wellOrdered_iff (hlow : ∀ t, env.toLowercase (env.toLowercase t) = env.toLowercase t)
    (hn : ((specs.map name).map env.toLowercase).Nodup) : AlwaysWellOrdered env specs ↔
      (∀ spec ∈ specs, env.toLowercase spec.name = spec.name) ∨ specs.length ≤ 1 := by
  have hnames := hn.of_map
  constructor
  · intro hall
    by_contra hcon
    simp only [not_or, not_forall, not_le] at hcon
    obtain ⟨⟨up, hup, hcased⟩, hlen⟩ := hcon
    obtain hnil | ⟨down, hdown, hne⟩ := ((hnames.of_map).ne_singleton_iff up).mp (by rintro rfl; simp at hlen)
    · simp [hnil] at hup
    have hinj : ∀ x ∈ specs, env.toLowercase x.name = env.toLowercase up.name → x = up := by
      intro x hx
      rw [map_map] at hn
      exact inj_on_of_nodup_map hn hx hup
    have hmissed : env.toLowercase up.name ∉ specs.map name := by
      intro hmem
      obtain ⟨x, hx, hname⟩ := mem_map.mp hmem
      obtain rfl := hinj x hx (by rw [hname, hlow])
      exact hcased hname.symm
    -- the reader is listed first, before what it reads
    obtain ⟨rest, hfirst⟩ := toposortViews_reader_first env hnames hdown hmissed
    obtain ⟨-, hbefore⟩ := hall (oneReader specs down.name _) (listFirst down.name) (fun n refs hrefs t ht => by
      rw [lookup_oneReader, Option.ite_none_right_eq_some, Option.some.injEq] at hrefs
      rw [← hrefs.2, mem_ite_nil_right, mem_singleton] at ht
      rw [ht.2, hlow]) (listFirst_perm down.name)
    have hwf := oneReader_wf env specs fun h => hne (hinj down hdown h)
    have hin := hbefore hwf [] down.name rest hfirst up.name ⟨mem_map_of_mem hup, down, hdown, rfl, by
      rw [lookup_oneReader, if_pos (mem_map_of_mem hdown), if_pos rfl]
      exact mem_singleton_self _⟩
    cases hin
  · rintro (hcase | hone) deps order - hk
    · exact wellOrdered_of_lowercase _ deps hk hnames hcase
    refine ⟨toposortViews_perm _ deps hk hnames, fun hwf l b l' heq a hread => ?_⟩
    -- the view would read itself
    obtain ⟨ha, spec, hs, rfl, -⟩ := id hread
    obtain ⟨x, hx, rfl⟩ := mem_map.mp ha
    have hsame : x = spec := by
      obtain ⟨y, rfl⟩ := length_eq_one_iff.mp (hone.antisymm (length_pos_of_mem hx))
      rw [mem_singleton.mp hx, mem_singleton.mp hs]
    exact absurd (hsame ▸ hread) (hwf.irrefl.irrefl _)

end Edges

/-- Two views of which the first, in the order of the hash map, reads the second. -/
def salesViews : List IncrementalViewSpec := [scanView "daily" "orders", scanView "Orders" "t"]

def salesEnv : Env StatelessPlan := { scanEnv with toLowercase := fun t => if t = "Orders" then "orders" else t }

theorem reader_before_read :
    toposortViews salesEnv (oneReader salesViews "daily" "orders") salesViews = ["daily", "Orders"] ∧
      ¬ WellOrdered salesEnv (oneReader salesViews "daily" "orders") salesViews := by
  have horder : toposortViews salesEnv (oneReader salesViews "daily" "orders") salesViews = ["daily", "Orders"] := by
    decide +kernel
  refine ⟨horder, fun h => ?_⟩
  have hin := h.2 (oneReader_wf salesEnv _ (by decide)) [] "daily" ["Orders"] horder "Orders"
    ⟨by decide, _, .head _, rfl, by decide +kernel⟩
  cases hin

/-- The same two views in lower case. -/
theorem lowercase_wellOrdered :
    AlwaysWellOrdered salesEnv [scanView "daily" "orders", scanView "orders" "t"] := by
  refine (wellOrdered_iff salesEnv (fun t => ?_) (by decide)).mpr (.inl (by decide))
  by_cases ht : t = "Orders" <;> simp [salesEnv, ht]

end Krishiv.Ivm
