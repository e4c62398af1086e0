/-
# Injector.Proofs.Plan.Outline -- what the drawing of a forest shows

A line says how deep it is and which slot it shows.  That is enough to tell the place of the slot:
the line belongs to the nearest line before it that is less deep, and lines of its own depth in
between are the values needed before it (`OutlineLine.place`).

Read in this way the outline of a forest shows every slot that the entries lead to in one line,
and nothing else; the first line of a plan, the one without a mark, has under it the values
that the plan needs, in order and one level deeper (`outline_portrays`).  This holds however
plans are shared, and also where they need one another in a circle.

Every part is proved for the drawing of neighbouring slots first, with any lines before and
after, and then put together over the entries.
-/
import Injector.Proofs.Plan.Delegation
import Injector.Proofs.Plan.Drawing

namespace Injector

set_option autoImplicit false

/-- The place number `k` below a plan, or that of the entry `n` below none. -/
def Place.below (n : Nat) (owner? : Option PlanId) (k : Nat) : Place :=
  match owner? with
  | none => .entry n
  | some id => .child id k

/-! ## Reading the lines -/

namespace OutlineLine

/-- The plan of the nearest line that is less deep, among lines with the nearest first. -/
def owner? (depth : Nat) (before : List OutlineLine) : Option PlanId :=
  (before.dropWhile fun b => depth ≤ b.depth).head?.map (·.slot.id)

/-- How many lines of that depth are nearer than any that is less deep. -/
def rank (depth : Nat) (before : List OutlineLine) : Nat :=
  (before.takeWhile fun b => depth ≤ b.depth).countP (·.depth = depth)

/-- The place whose slot the line shows, in the drawing of the entry `n`. -/
def place (n : Nat) (before : List OutlineLine) (l : OutlineLine) : Place :=
  .below n (owner? l.depth before) (rank l.depth before)

/-- The place and the slot of each line, behind the lines `before`. -/
def shown (n : Nat) : List OutlineLine → List OutlineLine → List (Place × Slot)
  | _, [] => []
  | before, l :: rest => (l.place n before, l.slot) :: shown n (l :: before) rest

/-- The lines under a line, as far as they are deeper. -/
def under (l : OutlineLine) (after : List OutlineLine) : List OutlineLine :=
  after.takeWhile fun b => l.depth < b.depth

/-- The lines under a line that are one level deeper. -/
def directlyUnder (l : OutlineLine) (after : List OutlineLine) : List OutlineLine :=
  (l.under after).filter (·.depth = l.depth + 1)

variable {n depth : Nat} {before xs ys : List OutlineLine} {l : OutlineLine}

theorem shown_append :
    shown n before (xs ++ ys) = shown n before xs ++ shown n (xs.reverse ++ before) ys := by
  induction xs generalizing before with
  | nil => rfl
  | cons l rest ih => simp [shown, ih]

/-- Lines that are not less deep do not change to which plan the next one belongs. -/
theorem owner?_append (deep : ∀ l ∈ xs, depth ≤ l.depth) :
    owner? depth (xs.reverse ++ before) = owner? depth before := by
  unfold owner?
  rw [List.dropWhile_append_of_pos (by simpa using deep)]

theorem rank_append (deep : ∀ l ∈ xs, depth ≤ l.depth) :
    rank depth (xs.reverse ++ before) = xs.countP (·.depth = depth) + rank depth before := by
  unfold rank
  rw [List.takeWhile_append_of_pos (by simpa using deep), List.countP_append, List.countP_reverse]

theorem owner?_cons_of_lt (lt : l.depth < depth) : owner? depth (l :: before) = some l.slot.id := by
  simp [owner?, Nat.not_le_of_lt lt]

theorem rank_cons_of_lt (lt : l.depth < depth) : rank depth (l :: before) = 0 := by
  simp [rank, Nat.not_le_of_lt lt]

theorem owner?_cons_of_le (le : depth ≤ l.depth) :
    owner? depth (l :: before) = owner? depth before := by
  simp [owner?, le]

theorem rank_cons_of_eq (same : l.depth = depth) :
    rank depth (l :: before) = rank depth before + 1 := by
  simp [rank, same]

theorem under_eq_nil (stop : ∀ b ∈ xs.head?, b.depth ≤ l.depth) : l.under xs = [] := by
  cases xs with
  | nil => rfl
  | cons b rest =>
      have low : b.depth ≤ l.depth := stop b rfl
      simp [under, Nat.not_lt_of_le low]

theorem under_append (deep : ∀ b ∈ xs, l.depth < b.depth)
    (stop : ∀ b ∈ ys.head?, b.depth ≤ l.depth) : l.under (xs ++ ys) = xs := by
  have none : l.under ys = [] := under_eq_nil stop
  unfold under at none ⊢
  rw [List.takeWhile_append_of_pos (by simpa using deep), none, List.append_nil]

/-- In front of the text there are two characters for each line above. -/
theorem text_eq (l : OutlineLine) :
    ∃ indent line, l.text = indent ++ line ++ (if l.repeated then " *" else "") ∧
      indent.length = 2 * l.depth ∧
      line = (if l.last then "└" else "├") ++ " " ++ l.kind ++ "@" ++ toString l.slot.id ++ ": " ++
        l.slot.key.text := by
  refine ⟨String.join (l.above.map fun last => if last then "  " else "│ "), _, ?_, ?_, rfl⟩
  · simp only [text, String.append_assoc]
  · rw [depth]
    induction l.above with
    | nil => rfl
    | cons last rest ih =>
        have two : (if last = true then "  " else "│ ").length = 2 := by cases last <;> decide
        rw [List.map_cons, String.join_cons, String.length_append, ih, two, List.length_cons]
        omega

theorem filter_depth_of_lt (deep : ∀ l ∈ xs, depth < l.depth) :
    xs.filter (·.depth = depth) = [] := by
  refine List.filter_eq_nil_iff.mpr fun l mem => ?_
  have lt := deep l mem
  simp only [decide_eq_true_eq]
  omega

end OutlineLine

namespace Arena

open OutlineLine

variable (a : Arena)

/-- A line without a mark has the values under it that its plan needs, a marked one nothing. -/
def Heads (l : OutlineLine) (after : List OutlineLine) : Prop :=
  if l.repeated then l.under after = []
  else (l.directlyUnder after).map (·.slot) = a.children l.slot.id

/-- Every line heads what comes after it, with the lines `post` behind all of them. -/
def EachHeads : List OutlineLine → List OutlineLine → Prop
  | [], _ => True
  | l :: rest, post => a.Heads l (rest ++ post) ∧ EachHeads rest post

variable {a} {n k : Nat} {above : List Bool} {slots : List Slot} {seen out : List PlanId}
  {lines before post xs ys : List OutlineLine} {l : OutlineLine} {entries : List Entry}
  {o : List (Entry × List OutlineLine)}

theorem eachHeads_append :
    a.EachHeads (xs ++ ys) post ↔ a.EachHeads xs (ys ++ post) ∧ a.EachHeads ys post := by
  induction xs with
  | nil => simp [EachHeads]
  | cons l rest ih => simp [EachHeads, ih, and_assoc]

/-! ## The drawing of neighbouring slots -/

theorem Draws.le_depth (draws : a.Draws above slots seen lines out) :
    ∀ l ∈ lines, above.length ≤ l.depth := by
  induction draws with
  | done => simp
  | again _ _ ih => exact List.forall_mem_cons.mpr ⟨Nat.le_refl _, ih⟩
  | first _ _ _ below behind =>
      refine List.forall_mem_cons.mpr ⟨Nat.le_refl _, List.forall_mem_append.mpr ⟨?_, behind⟩⟩
      intro l mem
      have deep := below l mem
      simp only [List.length_append, List.length_singleton] at deep
      omega

/-- Lines below another one are deeper. -/
theorem Draws.lt_depth {last : Bool} (draws : a.Draws (above ++ [last]) slots seen lines out) :
    ∀ l ∈ lines, above.length < l.depth := by
  intro l mem
  have deep := draws.le_depth l mem
  rw [List.length_append, List.length_singleton] at deep
  omega

theorem Draws.depth_head (draws : a.Draws above slots seen lines out) :
    ∀ l ∈ lines.head?, l.depth = above.length := by
  cases draws <;> simp

/-- The lines that are as deep as the slots show them, in order. -/
theorem Draws.level (draws : a.Draws above slots seen lines out) :
    (lines.filter (·.depth = above.length)).map (·.slot) = slots := by
  induction draws with
  | done => rfl
  | again _ _ ih => simpa using ih
  | first _ down _ _ behind =>
      rw [List.filter_cons_of_pos (by simp), List.filter_append, filter_depth_of_lt down.lt_depth,
        List.nil_append, List.map_cons, behind, slot_lineOf]

theorem Draws.kind_eq (draws : a.Draws above slots seen lines out) :
    ∀ l ∈ lines, l.kind = a.kindOf l.slot.id := by
  induction draws with
  | done => simp
  | again _ _ ih => exact List.forall_mem_cons.mpr ⟨rfl, ih⟩
  | first _ _ _ below behind =>
      exact List.forall_mem_cons.mpr ⟨rfl, List.forall_mem_append.mpr ⟨below, behind⟩⟩

/-- Where neighbours stop, what comes behind them stops too. -/
theorem Draws.stop (draws : a.Draws above slots seen lines out)
    (stop : ∀ b ∈ post.head?, b.depth ≤ above.length) :
    ∀ b ∈ (lines ++ post).head?, b.depth ≤ above.length := by
  intro b first
  cases lines with
  | nil => exact stop b first
  | cons l more => exact Nat.le_of_eq (draws.depth_head b first)

/-- Each line has under it what its plan needs, with anything behind that is not deeper. -/
theorem Draws.eachHeads (draws : a.Draws above slots seen lines out)
    (stop : ∀ b ∈ post.head?, b.depth ≤ above.length) : a.EachHeads lines post := by
  induction draws generalizing post with
  | done => trivial
  | again _ rest ih => exact ⟨under_eq_nil (rest.stop stop), ih stop⟩
  | @first above slot neighbours _ _ _ below more _ down rest deeper behind =>
      have next := rest.stop stop
      refine ⟨?_, eachHeads_append.mpr ⟨deeper fun b first => ?_, behind stop⟩⟩
      · have all :
            (a.lineOf above slot neighbours false).under (below ++ more ++ post) = below := by
          rw [List.append_assoc]
          exact under_append down.lt_depth next
        have level := down.level
        rw [List.length_append, List.length_singleton] at level
        rw [Heads, repeated_lineOf, if_neg Bool.false_ne_true, directlyUnder, all]
        exact level
      · exact Nat.le_trans (next b first) (by simp)

/-- The lines show the slots, and below them what is needed by the plans that have no mark. -/
theorem Draws.shown_perm (draws : a.Draws above slots seen lines out) :
    (shown n before lines).Perm
      ((slots.zipIdx (rank above.length before)).map
          (fun s => (Place.below n (owner? above.length before) s.2, s.1)) ++
        (firsts lines).flatMap a.needs) := by
  induction draws generalizing before with
  | done => exact .refl _
  | @again above slot neighbours _ _ more _ rest ih =>
      have ih := @ih (a.lineOf above slot neighbours true :: before)
      rw [owner?_cons_of_le (by simp), rank_cons_of_eq (by simp)] at ih
      simpa [shown, place] using ih
  | @first above slot neighbours _ _ _ below more _ down rest deeper behind =>
      have deeper := @deeper (a.lineOf above slot neighbours false :: before)
      have behind := @behind (below.reverse ++ a.lineOf above slot neighbours false :: before)
      have far : ∀ l ∈ below, above.length ≤ l.depth :=
        fun l mem => Nat.le_of_lt (down.lt_depth l mem)
      rw [owner?_cons_of_lt (by simp), rank_cons_of_lt (by simp)] at deeper
      rw [owner?_append far, owner?_cons_of_le (by simp), rank_append far,
        rank_cons_of_eq (by simp), List.countP_eq_length_filter, filter_depth_of_lt down.lt_depth,
        List.length_nil, Nat.zero_add] at behind
      rw [shown, shown_append, List.zipIdx_cons, List.map_cons, List.cons_append, firsts_cons,
        repeated_lineOf, if_neg Bool.false_ne_true, firsts_append, List.flatMap_cons,
        List.flatMap_append, slot_lineOf]
      refine .cons _ ((deeper.append behind).trans ?_)
      rw [← List.append_assoc (a.needs slot.id)]
      exact List.perm_append_comm_assoc _ _ _

/-! ## The drawing of entries -/

theorem DrawsEach.entries_eq (each : a.DrawsEach entries seen o out) : o.map (·.1) = entries := by
  induction each with
  | done => rfl
  | entry _ _ ih => rw [List.map_cons, ih]

/-- What is drawn of one entry. -/
theorem DrawsEach.exists_draws (each : a.DrawsEach entries seen o out) {e : Entry}
    (mem : (e, lines) ∈ o) : ∃ seen out, a.Draws [] [e.result] seen lines out := by
  induction each with
  | done => cases mem
  | entry draws _ ih =>
      rcases List.mem_cons.mp mem with same | mem
      · cases same
        exact ⟨_, _, draws⟩
      · exact ih mem

theorem DrawsEach.shown_perm (each : a.DrawsEach entries seen o out) :
    ((o.zipIdx k).flatMap fun x => shown x.2 [] x.1.2).Perm
      ((entries.zipIdx k).map (fun x => (Place.entry x.2, x.1.result)) ++
        (firsts (o.flatMap (·.2))).flatMap a.needs) := by
  induction each generalizing k with
  | done => exact .refl _
  | @entry e rest _ _ _ lines more draws _ ih =>
      have first : (shown k [] lines).Perm
          ((Place.entry k, e.result) :: (firsts lines).flatMap a.needs) :=
        draws.shown_perm
      rw [List.zipIdx_cons, List.zipIdx_cons, List.flatMap_cons, List.flatMap_cons, List.map_cons,
        firsts_append, List.flatMap_append, List.cons_append]
      refine (first.append ih).trans (.cons _ ?_)
      exact List.perm_append_comm_assoc _ _ _

end Arena

namespace Forest

open Arena OutlineLine

/-- The place and the slot of each line of an outline. -/
def shownBy (o : List (Entry × List OutlineLine)) : List (Place × Slot) :=
  o.zipIdx.flatMap fun x => shown x.2 [] x.1.2

/-- The lines of the drawing as text. -/
def textLines (title : String) (o : List (Entry × List OutlineLine)) : List String :=
  title :: o.flatMap fun x =>
    ("* " ++ x.1.name ++ ": " ++ x.1.returnType.text) :: x.2.map (·.text)

/-- The outline shows the whole forest. -/
structure Portrayed (f : Forest) (o : List (Entry × List OutlineLine)) : Prop where
  entries : o.map (·.1) = f.entries
  /-- No two lines show one place. -/
  once : ((shownBy o).map (·.1)).Nodup
  /-- The places shown are those that the entries lead to. -/
  shows : ∀ place slot,
    (place, slot) ∈ shownBy o ↔ f.Uses place slot.id ∧ f.slotAt? place = some slot
  /-- A line names the step of the plan that its slot points at. -/
  kinds : ∀ l ∈ o.flatMap (·.2), ∃ p, f.arena.plan? l.slot.id = some p ∧ l.kind = p.stepName
  /-- A line is marked if a line before it shows the same plan. -/
  marks : ∀ before l after, o.flatMap (·.2) = before ++ l :: after →
    (l.repeated = true ↔ ∃ b ∈ before, b.slot.id = l.slot.id)
  /-- Each plan that the entries lead to has one line without a mark. -/
  firsts : ∀ id, f.Reachable id →
    (o.flatMap (·.2)).countP (fun l => !l.repeated && l.slot.id = id) = 1
  /-- The result of an entry is its only line that is not under another one. -/
  roots : ∀ e lines, (e, lines) ∈ o → (lines.filter (·.depth = 0)).map (·.slot) = [e.result]
  /-- A line without a mark has directly under it what its plan needs. -/
  needs : ∀ e before l after, (e, before ++ l :: after) ∈ o → l.repeated = false →
    (l.directlyUnder after).map (·.slot) = f.arena.children l.slot.id
  /-- Under a marked line there is nothing. -/
  leaves : ∀ e before l after, (e, before ++ l :: after) ∈ o → l.repeated = true →
    l.under after = []

variable {f : Forest} {o : List (Entry × List OutlineLine)} {out : List PlanId}

/-- Every line is among those that are read. -/
theorem map_snd_shownBy (o : List (Entry × List OutlineLine)) :
    (shownBy o).map (·.2) = (o.flatMap (·.2)).map (·.slot) := by
  have each (n : Nat) (before lines : List OutlineLine) :
      (shown n before lines).map (·.2) = lines.map (·.slot) := by
    induction lines generalizing before with
    | nil => rfl
    | cons l rest ih => simp [shown, ih]
  have behind (k : Nat) : ((o.zipIdx k).flatMap fun x => shown x.2 [] x.1.2).map (·.2) =
      (o.flatMap (·.2)).map (·.slot) := by
    induction o generalizing k with
    | nil => rfl
    | cons x rest ih =>
        simp only [List.zipIdx_cons, List.flatMap_cons, List.map_append, each, ih]
  exact behind 0

theorem countP_firsts (lines : List OutlineLine) (id : PlanId) :
    lines.countP (fun l => !l.repeated && l.slot.id = id) =
      (OutlineLine.firsts lines).count id := by
  induction lines with
  | nil => rfl
  | cons l rest ih =>
      rw [List.countP_cons, ih, firsts_cons]
      cases marked : l.repeated <;> simp [List.count_cons]

theorem heads_of_drawsEach (each : f.arena.DrawsEach f.entries [] o out) {e : Entry}
    {before after : List OutlineLine} {l : OutlineLine} (drawn : (e, before ++ l :: after) ∈ o) :
    f.arena.Heads l after := by
  obtain ⟨_, _, draws⟩ := each.exists_draws drawn
  have all : f.arena.EachHeads (before ++ l :: after) [] := draws.eachHeads nofun
  have heads := (eachHeads_append.mp all).2.1
  rwa [List.append_nil] at heads

/-- The plans that the entries lead to are those of the lines without a mark, once each. -/
theorem firsts_of_drawsEach (each : f.arena.DrawsEach f.entries [] o out) :
    (OutlineLine.firsts (o.flatMap (·.2))).Nodup ∧
      ∀ id, id ∈ OutlineLine.firsts (o.flatMap (·.2)) ↔ f.Reachable id := by
  have walk := each.preorder
  rw [each.out_eq, List.append_nil, List.reverse_reverse, List.reverse_nil] at walk
  exact ⟨walk.nodup List.nodup_nil, fun id => walk.mem_iff.trans reachable_iff.symm⟩

/-- The lines show the places of the entries and those below the plans without a mark. -/
theorem shownBy_perm (each : f.arena.DrawsEach f.entries [] o out) :
    (shownBy o).Perm (f.placesOf (OutlineLine.firsts (o.flatMap (·.2)))) :=
  each.shown_perm

theorem portrayed_of_drawsEach (filled : f.Filled)
    (each : f.arena.DrawsEach f.entries [] o out) : f.Portrayed o where
  entries := each.entries_eq
  once := by
    obtain ⟨distinct, -⟩ := firsts_of_drawsEach each
    exact ((shownBy_perm each).map (·.1)).nodup_iff.mpr (f.nodup_placesOf distinct)
  shows := fun place slot =>
    (shownBy_perm each).mem_iff.trans (mem_placesOf (firsts_of_drawsEach each).2)
  kinds := by
    intro l mem
    have listed : l.slot ∈ (shownBy o).map (·.2) := by
      rw [map_snd_shownBy]
      exact List.mem_map_of_mem mem
    obtain ⟨⟨place, _⟩, shown, rfl⟩ := List.mem_map.mp listed
    rw [(shownBy_perm each).mem_iff, mem_placesOf (firsts_of_drawsEach each).2] at shown
    obtain ⟨p, found⟩ := exists_plan? (filled place l.slot shown.2)
    obtain ⟨⟨e, lines⟩, drawn, mem⟩ := List.mem_flatMap.mp mem
    obtain ⟨_, _, draws⟩ := each.exists_draws drawn
    refine ⟨p, found, ?_⟩
    rw [draws.kind_eq l mem, kindOf, found]
    rfl
  marks := by
    intro before l after split
    have marked := each.marked
    rw [split] at marked
    simpa using marked.repeated_iff
  firsts := by
    intro id reachable
    obtain ⟨distinct, reached⟩ := firsts_of_drawsEach each
    rw [countP_firsts]
    exact List.count_eq_one_of_mem distinct ((reached id).mpr reachable)
  roots := by
    intro e lines drawn
    obtain ⟨_, _, draws⟩ := each.exists_draws drawn
    exact draws.level
  needs := by
    intro e before l after drawn unmarked
    have heads := heads_of_drawsEach each drawn
    rwa [Heads, unmarked, if_neg Bool.false_ne_true] at heads
  leaves := by
    intro e before l after drawn marked
    have heads := heads_of_drawsEach each drawn
    rwa [Heads, marked, if_pos rfl] at heads

/-- The text has a line for the title, for each entry and for each line of the outline. -/
theorem outlineText_eq (f : Forest) (title : String) :
    f.outlineText title = String.join ((textLines title f.outline).map (· ++ "\n")) := by
  rw [outlineText, textLines, List.map_cons, String.join_cons]
  congr 1
  induction f.outline with
  | nil => rfl
  | cons x rest ih =>
      rw [List.map_cons, String.join_cons, ih, List.flatMap_cons, List.map_append,
        String.join_append, List.map_cons, String.join_cons, List.map_map]
      rfl

/-- Drawing a forest whose slots point at plans ends, with one outline only, which shows the whole
forest.  Its text has a line for each line of the outline, with two characters in front for each
level and the mark behind. -/
theorem outline_portrays (f : Forest) (filled : f.Filled) :
    (∃ out, f.arena.DrawsEach f.entries [] f.outline out) ∧
      (∀ o out, f.arena.DrawsEach f.entries [] o out → o = f.outline) ∧
      f.Portrayed f.outline ∧
      (∀ title, f.outlineText title = String.join ((textLines title f.outline).map (· ++ "\n"))) ∧
      ∀ l : OutlineLine, ∃ indent line, l.text = indent ++ line ++ (if l.repeated then " *" else "") ∧
        indent.length = 2 * l.depth ∧
        line = (if l.last then "└" else "├") ++ " " ++ l.kind ++ "@" ++ toString l.slot.id ++ ": " ++
          l.slot.key.text := by
  obtain ⟨out, each⟩ := drawsEach_outlineFrom f.arena f.entries []
  exact ⟨⟨out, each⟩, fun o _ other => other.unique each, portrayed_of_drawsEach filled each,
    f.outlineText_eq, text_eq⟩

/-- A `Foo` needs a `Bar` twice, and the `Bar` needs the `Foo` again. -/
def circle : Forest :=
  let slot (name : String) (id : PlanId) : Slot := { key := .of { name }, id }
  let entry (name : String) (result : Slot) : Entry :=
    { name, returnType := result.key.ty, isProperty := true, isPrivate := false, isOverride := true
      isSuspend := false, result }
  { arena := ⟨#[
      ⟨.construct { name := "Foo" } ⟨[("left", slot "Bar" 1), ("right", slot "Bar" 1)]⟩ false, []⟩,
      ⟨.construct { name := "Bar" } ⟨[("foo", slot "Foo" 0)]⟩ false, []⟩]⟩
    entries := [entry "foo" (slot "Foo" 0), entry "bar" (slot "Bar" 1)] }

/-- The circle is gone round once, and each of its plans has one line without a mark. -/
theorem circle_portrayed :
    circle.Filled ∧ circle.Portrayed circle.outline ∧
      circle.outline.map (fun x => x.2.map fun l => (l.depth, l.slot.id, l.repeated)) =
        [[(0, 0, false), (1, 1, false), (2, 0, true), (1, 1, true)], [(0, 1, true)]] := by
  have filled : circle.Filled := filled_of_plans (by decide) (by decide)
  exact ⟨filled, (circle.outline_portrays filled).2.2.1, by decide⟩

end Forest

end Injector
