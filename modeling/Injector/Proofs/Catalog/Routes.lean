/-
# Injector.Proofs.Catalog.Routes -- the ways to the ancestors of a component

A route says which parent to go to at each step (`Catalog.follow?`); two routes may lead to
one ancestor, even over fields of the same names.  A walk has a place for each route, the
shorter routes first, and of two equally long ones first that which goes to the earlier parent
where they part (`Catalog.map_walk`, `Catalog.shortlex_allRoutes`).

So whatever is found on a walk is at the end of a route, and nothing is nearer than the first
that is found (`exists_route_of_walk`).  A binding is filed with the path of the component
itself; seen from below it has the path of the route that leads to the component
(`walk_routes`).
-/
import Injector.Proofs.Catalog.Requests
import Mathlib.Data.List.Shortlex

namespace Injector

set_option autoImplicit false

namespace Catalog

/-- The fields on the way and the ancestor at its end, going to the parents at the given
positions. -/
def follow? : Catalog → List Nat → Option (FieldPath × Catalog)
  | c, [] => some (.here, c)
  | c, n :: rest =>
    match c.parents[n]? with
    | none => none
    | some (field, parent) =>
      (parent.follow? rest).map fun (path, d) => (⟨field :: path.fields⟩, d)

/-- The routes with `k` steps. -/
def routes : Nat → Catalog → List (List Nat)
  | 0, _ => [[]]
  | k + 1, c => c.parents.zipIdx.flatMap fun (row, n) => (routes k row.2).map (n :: ·)

/-- The places `k` steps further up. -/
def level : Nat → FieldPath × Catalog → List (FieldPath × Catalog)
  | 0, place => [place]
  | k + 1, place => (links place).flatMap (level k)

/-- All routes, in the order of the walk. -/
def allRoutes (c : Catalog) : List (List Nat) :=
  (List.range (c.height + 1)).flatMap fun k => c.routes k

variable {c d : Catalog} {route : List Nat} {path : FieldPath} {place : FieldPath × Catalog}

/-! ## Following routes -/

theorem follow?_cons {n : Nat} {rest : List Nat} {row : String × Catalog}
    (here : c.parents[n]? = some row) :
    c.follow? (n :: rest) =
      (row.2.follow? rest).map fun (path, d) => (⟨row.1 :: path.fields⟩, d) := by
  simp only [follow?, here]

/-- A route has one step to a parent first, and goes on from there. -/
theorem exists_parent_of_follow? {n : Nat} {rest : List Nat}
    (led : c.follow? (n :: rest) = some (path, d)) :
    ∃ field parent path', c.parents[n]? = some (field, parent) ∧
      parent.follow? rest = some (path', d) ∧ path = ⟨field :: path'.fields⟩ := by
  cases here : c.parents[n]? with
  | none =>
      simp only [follow?, here] at led
      cases led
  | some row =>
      rw [follow?_cons here, Option.map_eq_some_iff] at led
      obtain ⟨⟨path', d⟩, led, same⟩ := led
      cases same
      exact ⟨row.1, row.2, path', rfl, led, rfl⟩

theorem follow?_append (more : List Nat) (led : c.follow? route = some (path, d)) :
    c.follow? (route ++ more) = (d.follow? more).map fun (path', e) => (path ++ path', e) := by
  induction route generalizing c path with
  | nil =>
      cases led
      simp [FieldPath.here_append]
  | cons n rest ih =>
      obtain ⟨field, parent, path', here, onward, rfl⟩ := exists_parent_of_follow? led
      rw [List.cons_append, follow?_cons here, ih onward, Option.map_map]
      rfl

theorem length_le_height (led : c.follow? route = some (path, d)) : route.length ≤ c.height := by
  induction route generalizing c path with
  | nil => exact Nat.zero_le _
  | cons n rest ih =>
      obtain ⟨field, parent, path', here, onward, -⟩ := exists_parent_of_follow? led
      have lower : parent.height < c.height := by
        obtain ⟨own, parents, faulty⟩ := c
        exact Source.height_lt_of_mem (List.mem_of_getElem? here)
      have := ih onward
      rw [List.length_cons]
      omega

/-! ## Routes in order -/

theorem mem_routes {k : Nat} :
    route ∈ c.routes k ↔ route.length = k ∧ (c.follow? route).isSome := by
  induction k generalizing c route with
  | zero =>
      rw [routes, List.mem_singleton, List.length_eq_zero_iff]
      exact ⟨fun only => ⟨only, by rw [only, follow?]; rfl⟩, And.left⟩
  | succ k ih =>
      simp only [routes, List.mem_flatMap, List.mem_map, Prod.exists,
        List.mem_zipIdx_iff_getElem?, ih]
      constructor
      · rintro ⟨field, parent, n, here, rest, ⟨length, led⟩, rfl⟩
        rw [follow?_cons here, Option.isSome_map]
        exact ⟨congrArg Nat.succ length, led⟩
      · rintro ⟨length, led⟩
        obtain ⟨⟨path, d⟩, led⟩ := Option.isSome_iff_exists.mp led
        cases route with
        | nil => cases length
        | cons n rest =>
            obtain ⟨field, parent, path', here, led, -⟩ := exists_parent_of_follow? led
            exact ⟨field, parent, n, here, rest, ⟨Nat.succ.inj length, by rw [led]; rfl⟩, rfl⟩

theorem lex_routes (c : Catalog) (k : Nat) : (c.routes k).Pairwise (List.Lex (· < ·)) := by
  induction k generalizing c with
  | zero => exact List.pairwise_singleton _ _
  | succ k ih =>
      have positions : c.parents.zipIdx.Pairwise fun x y => x.2 < y.2 := by
        rw [← List.pairwise_map (f := Prod.snd) (R := (· < ·)), List.zipIdx_map_snd]
        exact List.pairwise_lt_range'
      refine List.pairwise_flatMap.mpr ⟨fun row _ => ?_, positions.imp fun lt x hx y hy => ?_⟩
      · exact List.pairwise_map.mpr ((ih row.1.2).imp List.Lex.cons)
      · obtain ⟨rest, -, rfl⟩ := List.mem_map.mp hx
        obtain ⟨rest', -, rfl⟩ := List.mem_map.mp hy
        exact .rel lt

theorem shortlex_allRoutes (c : Catalog) : c.allRoutes.Pairwise (List.Shortlex (· < ·)) := by
  refine List.pairwise_flatMap.mpr
    ⟨fun k _ => ?_, List.pairwise_lt_range.imp fun lt x hx y hy => ?_⟩
  · refine (c.lex_routes k).imp_of_mem fun hx hy lex => .of_lex ?_ lex
    rw [(mem_routes.mp hx).1, (mem_routes.mp hy).1]
  · refine .of_length_lt ?_
    rwa [(mem_routes.mp hx).1, (mem_routes.mp hy).1]

theorem mem_allRoutes : route ∈ c.allRoutes ↔ (c.follow? route).isSome := by
  simp only [allRoutes, List.mem_flatMap, List.mem_range, mem_routes]
  constructor
  · rintro ⟨k, -, -, led⟩
    exact led
  · intro led
    obtain ⟨⟨path, d⟩, found⟩ := Option.isSome_iff_exists.mp led
    exact ⟨route.length, Nat.lt_succ_of_le (length_le_height found), rfl, led⟩

/-! ## The walk -/

theorem levels_eq (n : Nat) (places : List (FieldPath × Catalog)) :
    levels n places = (List.range n).flatMap fun k => places.flatMap (level k) := by
  induction n generalizing places with
  | zero => rfl
  | succ n ih =>
      have first : places.flatMap (level 0) = places := List.flatMap_singleton' places
      rw [levels, ih, List.range_succ_eq_map, List.flatMap_cons, first, List.flatMap_map]
      simp only [level, List.flatMap_assoc]

/-- The places `k` steps further up are those that the routes with `k` steps lead to. -/
theorem level_eq (k : Nat) (path : FieldPath) (c : Catalog) :
    (level k (path, c)).map some =
      (c.routes k).map fun r => (c.follow? r).map fun (path', d) => (path ++ path', d) := by
  induction k generalizing path c with
  | zero =>
      have whole : path ++ FieldPath.here = path := by
        show FieldPath.mk (path.fields ++ []) = path
        rw [List.append_nil]
      simp [level, routes, follow?, whole]
  | succ k ih =>
      have rows : c.parents = c.parents.zipIdx.map Prod.fst := (List.zipIdx_map_fst 0 _).symm
      rw [level, links, rows, List.map_flatMap, List.flatMap_map, List.flatMap_map, routes,
        List.map_flatMap]
      refine List.flatMap_congr fun ⟨row, n⟩ mem => ?_
      have here := List.mem_zipIdx_iff_getElem?.mp mem
      rw [ih, List.map_map]
      refine List.map_congr_left fun r _ => ?_
      rw [Function.comp_apply, follow?_cons here, Option.map_map]
      refine congrArg (Option.map · _) (funext fun ⟨path', d⟩ => ?_)
      show (FieldPath.mk (path.fields ++ [row.1] ++ path'.fields), d) =
        (FieldPath.mk (path.fields ++ row.1 :: path'.fields), d)
      rw [List.append_assoc, List.singleton_append]

theorem map_walk (c : Catalog) : c.walk.map some = c.allRoutes.map c.follow? := by
  rw [walk, levels_eq, allRoutes, List.map_flatMap, List.map_flatMap]
  refine List.flatMap_congr fun k _ => ?_
  rw [List.flatMap_singleton, level_eq]
  refine List.map_congr_left fun r _ => ?_
  cases c.follow? r with
  | none => rfl
  | some place => rfl

/-- What is on the walk is at the end of a route; and no other route to what is not before it
is shorter. -/
theorem exists_route_of_walk {before after : List (FieldPath × Catalog)}
    (walked : c.walk = before ++ place :: after) : ∃ route, c.follow? route = some place ∧
      ∀ other q, c.follow? other = some q → q ∈ before ∨ route.length ≤ other.length := by
  have along := c.map_walk
  rw [walked, List.map_append, List.map_cons, eq_comm, List.map_eq_append_iff] at along
  obtain ⟨earlier, rest, split, map_earlier, map_rest⟩ := along
  obtain ⟨route, later, rfl, led, -⟩ := List.map_eq_cons_iff.mp map_rest
  have ordered := c.shortlex_allRoutes
  rw [split] at ordered
  refine ⟨route, led, fun other q there => ?_⟩
  have listed : other ∈ c.allRoutes := mem_allRoutes.mpr (by rw [there]; rfl)
  rw [split] at listed
  rcases List.mem_append.mp listed with mem | mem
  · have mapped : some q ∈ before.map some := by
      rw [← map_earlier, ← there]
      exact List.mem_map_of_mem mem
    exact .inl (List.mem_map_of_injective (Option.some_injective _) |>.mp mapped)
  · rcases List.mem_cons.mp mem with rfl | mem
    · exact .inr (Nat.le_refl _)
    · have sorted := (List.pairwise_cons.mp (List.pairwise_append.mp ordered).2.1).1 other mem
      rcases List.shortlex_def.mp sorted with shorter | ⟨same, -⟩
      · exact .inr (Nat.le_of_lt shorter)
      · exact .inr (Nat.le_of_eq same)

/-- The places on the walk are those that routes lead to. -/
theorem mem_walk_iff : place ∈ c.walk ↔ ∃ route, c.follow? route = some place := by
  constructor
  · intro mem
    obtain ⟨before, after, walked⟩ := List.append_of_mem mem
    obtain ⟨route, led, -⟩ := exists_route_of_walk walked
    exact ⟨route, led⟩
  · rintro ⟨route, led⟩
    have listed : some place ∈ c.walk.map some := by
      rw [map_walk, ← led]
      exact List.mem_map_of_mem (mem_allRoutes.mpr (by rw [led]; rfl))
    exact List.mem_map_of_injective (Option.some_injective _) |>.mp listed

/-! ## What is found -/

/-- The route leads to the place, of which it holds, and no shorter route leads to such a
place. -/
structure Closest (c : Catalog) (holds : FieldPath × Catalog → Prop) (route : List Nat)
    (place : FieldPath × Catalog) : Prop where
  led : c.follow? route = some place
  here : holds place
  nearest : ∀ other q, c.follow? other = some q → holds q → route.length ≤ other.length

/-- What requests are answered with is filed by the component at the end of a route, and has
the path of that route; where one component answers for all, it is a closest one. -/
structure Located (c : Catalog) : Prop where
  member : ∀ key found, c.lookup key = some found → ∃ route path d b,
    c.Closest (fun q => q.2.offers key (!q.1.isHere) ≠ none) route (path, d) ∧
      d.offers key (!path.isHere) = some b ∧ found = ⟨.member { b with path }, d.own.cls⟩
  contribution : ∀ key kind bs, c.container? key = some (.container kind bs) → ∀ b ∈ bs,
    ∃ route path d own, c.follow? route = some (path, d) ∧ d.own.Gathers key own ∧
      b = { own with path }
  pattern : ∀ g ∈ c.generics, ∃ route path d own, c.follow? route = some (path, d) ∧
    own ∈ d.own.generics ∧ g = { own with binding.path := path }
  keeper : ∀ scope owner, c.scopeOwner scope = some owner → ∃ route d,
    c.Closest (fun q => q.2.own.scope = some scope) route (owner.path, d) ∧ owner.cls = d.own.cls

theorem closest_of_walk (holds : FieldPath × Catalog → Prop)
    {before after : List (FieldPath × Catalog)} (walked : c.walk = before ++ place :: after)
    (here : holds place) (silent : ∀ q ∈ before, ¬holds q) :
    ∃ route, c.Closest holds route place := by
  obtain ⟨route, led, nearest⟩ := exists_route_of_walk walked
  refine ⟨route, led, here, fun other q there held => ?_⟩
  exact (nearest other q there).resolve_left fun mem => silent q mem held

/-- A binding of the component itself, seen from below, has the path to the component. -/
theorem under_eq {b : MemberBinding} (here : b.path = .here) (path : FieldPath) :
    b.under path = { b with path } := by
  have whole : path ++ b.path = path := by
    rw [here]
    show FieldPath.mk (path.fields ++ []) = path
    rw [List.append_nil]
  rw [MemberBinding.under, whole]

variable {src : Source}

/-- Where bindings are filed with the path of the component itself, all answers are located. -/
theorem located_of_filed (filed : c.Everywhere src.Filed) : c.Located where
  member key found answer := by
    obtain ⟨place, b, nearest, rfl⟩ := nearest_of_lookupIn answer
    obtain ⟨before, after, walked, silent, offered⟩ := nearest
    have here : b.path = .here := by
      have filed := filed.walk place (walked ▸ List.mem_append_right _ List.mem_cons_self)
      rcases offers_cases offered with ⟨-, way⟩ | ⟨direct, -⟩
      · exact congrArg MemberBinding.path (filed.passthroughs key b way).1
      · exact congrArg MemberBinding.path (filed.direct key b direct).1
    obtain ⟨route, closest⟩ := closest_of_walk
      (fun q => q.2.offers key (!q.1.isHere) ≠ none) walked
      (by rw [offered]; exact Option.some_ne_none b) fun q mem offers => offers (silent q mem)
    exact ⟨route, place.1, place.2, b, closest, offered, by rw [under_eq here]⟩
  contribution key kind bs answer b mem := by
    obtain ⟨place, there, own, gathers, rfl⟩ := gathers_of_container? answer mem
    obtain ⟨entry, present, among⟩ := gathers
    have here : own.path = .here :=
      congrArg MemberBinding.path ((filed.walk place there).containers key entry present own among)
    obtain ⟨route, led⟩ := mem_walk_iff.mp there
    exact ⟨route, place.1, place.2, own, led, ⟨entry, present, among⟩, under_eq here _⟩
  pattern g mem := by
    obtain ⟨place, there, own, among, rfl⟩ := mem_generics_iff.mp mem
    have here : own.binding.path = .here :=
      congrArg MemberBinding.path ((filed.walk place there).generics own among).1
    obtain ⟨route, led⟩ := mem_walk_iff.mp there
    exact ⟨route, place.1, place.2, own, led, among, by rw [under_eq here]⟩
  keeper scope owner answer := by
    simp only [scopeOwner, Option.map_eq_some_iff] at answer
    obtain ⟨place, found, rfl⟩ := answer
    obtain ⟨has, before, after, walked, silent⟩ := List.find?_eq_some_iff_append.mp found
    obtain ⟨route, closest⟩ := closest_of_walk (fun q => q.2.own.scope = some scope)
      walked (by simpa using has) fun q mem => by simpa using silent q mem
    exact ⟨route, place.2, closest, rfl⟩

end Catalog

namespace Source

variable (src : Source)

/-- The store after catalogs were collected one by one, whatever had been reported before. -/
def storeAfter (history : List (ClassId × Log)) : CatalogStore :=
  history.foldl (fun store (cls, log) => (src.collect cls { store, log }).2.store) {}

/-- What holds of all that components declare holds everywhere in what is kept. -/
theorem storeAfter_everywhere {holds : Holdings → Prop} (own : ∀ id, holds (src.holdings id).1)
    (none : ∀ id, holds { cls := id }) (history : List (ClassId × Log)) :
    (src.storeAfter history).Everywhere holds :=
  List.foldlRecOn (motive := (CatalogStore.Everywhere holds)) _ _ nofun
    fun _ kept row _ => (everywhere_collectTo own none _ row.1 _ kept).2

theorem storeAfter_filed (history : List (ClassId × Log)) :
    (src.storeAfter history).Everywhere src.Filed :=
  src.storeAfter_everywhere filed_holdings src.filed_empty history

end Source

/-- The walk lists a place for each route, the shorter routes first and then those over
earlier parents; and whatever is found on it is under the path to the component that has it,
where no closer one could answer. -/
theorem walk_routes (src : Source) (history : List (ClassId × Log)) (cls : ClassId) (log : Log) :
    let c := (src.collect cls { store := src.storeAfter history, log }).1
    (∃ routes : List (List Nat), routes.head? = some [] ∧
        routes.Pairwise (List.Shortlex (· < ·)) ∧
        (∀ route, route ∈ routes ↔ (c.follow? route).isSome) ∧
        c.walk.map some = routes.map c.follow?) ∧
      c.Located := by
  intro c
  refine ⟨⟨c.allRoutes, ?_, c.shortlex_allRoutes, fun _ => Catalog.mem_allRoutes, c.map_walk⟩, ?_⟩
  · rw [Catalog.allRoutes, List.range_succ_eq_map]
    rfl
  · exact Catalog.located_of_filed (Source.everywhere_collectTo Source.filed_holdings
      src.filed_empty _ cls _ (src.storeAfter_filed history)).1

example :
    let top : Catalog := { own := { cls := .ofNat 0 } }
    let left : Catalog := { own := { cls := .ofNat 1 }, parents := [("top", top)] }
    let right : Catalog := { own := { cls := .ofNat 2 }, parents := [("top", top)] }
    let c : Catalog := { own := { cls := .ofNat 3 }, parents := [("left", left), ("right", right)] }
    c.walk.map (·.1.fields) = [[], ["left"], ["right"], ["left", "top"], ["right", "top"]] := by
  decide

end Injector
