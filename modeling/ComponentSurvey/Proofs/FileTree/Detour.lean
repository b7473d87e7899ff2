import ComponentSurvey.Discovery
import ComponentSurvey.Proofs.FileTree.Following

/-!
File trees with a file that can be read and whose path cannot be resolved. The way to the file goes
through a link so deep that it cannot be asked for by its path. Following the way goes through the link
and turns back behind it; resolving it takes the link for a directory, turns back before it, and meets
a link to itself there.
-/

set_option autoImplicit false

namespace ComponentSurvey

theorem utf8ByteSize_intercalate_replicate (name : String) (n : Nat) :
    (String.intercalate "/" (List.replicate (n + 1) name)).utf8ByteSize + 1 =
      (n + 1) * (name.utf8ByteSize + 1) := by
  induction n with
  | zero => simp
  | succ n ih =>
    rw [List.replicate_succ, String.intercalate_cons_of_ne_nil (by simp)]
    simp only [String.utf8ByteSize_append]
    have h : "/".utf8ByteSize = 1 := by decide
    rw [Nat.succ_mul, ← ih]
    omega

/-- Names for such a tree: of the directories on the way down, of which there is one more than
`below`, and of the link at their end. -/
structure Detour where
  name : String
  below : Nat
  far : String
  isName : Path.IsName name
  isName_far : Path.IsName far
  longer : 4 < name.utf8ByteSize
  longer_far : 4 < far.utf8ByteSize
  reachable : (below + 1) * (name.utf8ByteSize + 1) + 5 ≤ FileTree.longestPath
  tooFar : FileTree.longestPath < (below + 1) * (name.utf8ByteSize + 1) + far.utf8ByteSize + 1

namespace Detour

variable (v : Detour) (e : Entry)

def way : List String := List.replicate (v.below + 1) v.name

def behind : List (String × Entry) := [("u", .directory []), ("x.ts", e)]

/-- The directory at the end of the way, where a link to itself has the name of the file. -/
def bottom : List (String × Entry) :=
  [(v.far, .link "m/u"), ("m", .directory (behind e)), ("x.ts", .link "x.ts")]

def nest : Nat → Entry
  | 0 => .directory (v.bottom e)
  | n + 1 => .directory [(v.name, nest n)]

def around : List String := ["l", v.far, "..", "x.ts"]

/-- The file stands twice in the tree: at the top, and where the link `a.ts` leads. -/
def tree : FileTree where
  children := [(v.name, v.nest e v.below), ("l", .link (String.intercalate "/" v.way)),
    ("a.ts", .link (String.intercalate "/" v.around)), ("b.ts", e)]
  current := []

theorem isName_x : Path.IsName "x.ts" := by decide

variable {v e}

theorem beq_name (v : Detour) {name : String} (h : name.utf8ByteSize ≤ 4) :
    (name == v.name) = false := by
  refine beq_eq_false_iff_ne.2 ?_
  rintro rfl
  exact absurd v.longer (Nat.not_lt.2 h)

theorem beq_far (v : Detour) {name : String} (h : name.utf8ByteSize ≤ 4) :
    (name == v.far) = false := by
  refine beq_eq_false_iff_ne.2 ?_
  rintro rfl
  exact absurd v.longer_far (Nat.not_lt.2 h)

theorem lookup_name : (v.tree e).children.lookup v.name = some (v.nest e v.below) := by
  simp [tree]

theorem lookup_l : (v.tree e).children.lookup "l" = some (.link (String.intercalate "/" v.way)) := by
  have h : ("l" == v.name) = false := beq_name v (by decide)
  simp [tree, List.lookup_cons, h]

theorem lookup_a :
    (v.tree e).children.lookup "a.ts" = some (.link (String.intercalate "/" v.around)) := by
  have h : ("a.ts" == v.name) = false := beq_name v (by decide)
  simp [tree, List.lookup_cons, h]

theorem lookup_b : (v.tree e).children.lookup "b.ts" = some e := by
  have h : ("b.ts" == v.name) = false := beq_name v (by decide)
  simp [tree, List.lookup_cons, h]

theorem lookup_far : (v.bottom e).lookup v.far = some (.link "m/u") := by
  simp [bottom]

theorem lookup_m : (v.bottom e).lookup "m" = some (.directory (behind e)) := by
  have h : ("m" == v.far) = false := beq_far v (by decide)
  simp [bottom, List.lookup_cons, h]

theorem lookup_x : (v.bottom e).lookup "x.ts" = some (.link "x.ts") := by
  have h : ("x.ts" == v.far) = false := beq_far v (by decide)
  simp [bottom, List.lookup_cons, h]

theorem lookup_u : (behind e).lookup "u" = some (.directory []) := by
  simp [behind]

theorem lookup_behind : (behind e).lookup "x.ts" = some e := by
  have h : ("x.ts" == "u") = false := by decide
  simp [behind, List.lookup_cons, h]

theorem isPart_of_mem_way {part : String} (h : part ∈ v.way) : Path.IsPart part := by
  rw [List.eq_of_mem_replicate h]
  exact v.isName.toIsPart

theorem isPart_of_mem_around {part : String} (h : part ∈ v.around) : Path.IsPart part := by
  simp only [around, List.mem_cons, List.not_mem_nil, or_false] at h
  rcases h with rfl | rfl | rfl | rfl
  · decide
  · exact v.isName_far.toIsPart
  · decide
  · exact isName_x.toIsPart

theorem way_ne_nil : v.way ≠ [] := by simp [way]

theorem nest_ne_link (n : Nat) (target : String) : v.nest e n ≠ .link target := by
  cases n <;> simp [nest]

theorem advance_nest (n : Nat) {s : Spot} (hs : s.entry = v.nest e n) :
    ∃ t : Spot, t.entry = .directory (v.bottom e) ∧
      ∀ rest, FileTree.advance s (List.replicate n v.name ++ rest) = FileTree.advance t rest := by
  induction n generalizing s with
  | zero => exact ⟨s, hs, fun rest => rfl⟩
  | succ n ih =>
    obtain ⟨t, ht, ha⟩ := ih (s := s.enter v.name (v.nest e n)) rfl
    have hl : List.lookup v.name [(v.name, v.nest e n)] = some (v.nest e n) := by simp
    refine ⟨t, ht, fun rest => ?_⟩
    rw [List.replicate_succ, List.cons_append,
      FileTree.advance_enter hs v.isName hl (nest_ne_link n)]
    exact ha rest

theorem advance_way :
    ∃ t : Spot, t.entry = .directory (v.bottom e) ∧ ∀ rest,
      FileTree.advance (v.tree e).topSpot (v.way ++ rest) = FileTree.advance t rest := by
  obtain ⟨t, ht, ha⟩ := advance_nest v.below
    (s := (v.tree e).topSpot.enter v.name (v.nest e v.below)) rfl
  refine ⟨t, ht, fun rest => ?_⟩
  rw [way, List.replicate_succ, List.cons_append,
    FileTree.advance_enter rfl v.isName lookup_name (nest_ne_link v.below)]
  exact ha rest

theorem follow_around (v : Detour) (bytes : List UInt8) (t : Tree) (links : Nat) :
    ∃ arrival, (v.tree (.file bytes t)).follow (links + 2) (v.tree (.file bytes t)).topSpot
      v.around = .ok arrival ∧ arrival.spot.entry = .file bytes t := by
  obtain ⟨s, hs, ha⟩ := advance_way (v := v) (e := .file bytes t)
  have hparts : ∀ part ∈ v.way, Path.IsPart part := fun part => isPart_of_mem_way
  have hl := FileTree.advance_link (s := (v.tree (.file bytes t)).topSpot) rfl (by decide) lookup_l
    [v.far, "..", "x.ts"]
  have hf := FileTree.advance_link hs v.isName_far lookup_far ["..", "x.ts"]
  have hu : FileTree.followedParts "m/u" = ["m", "u"] := by decide
  rw [around, FileTree.follow_relative hl (Path.isAbsolute_intercalate hparts),
    FileTree.followedParts_intercalate way_ne_nil hparts, FileTree.follow_congr (ha _),
    FileTree.follow_relative hf (by decide), hu]
  have hm : FileTree.advance s ["m", "u", "..", "x.ts"] =
      .arrived ((s.enter "m" (.directory (behind (.file bytes t)))).enter "x.ts" (.file bytes t)) := by
    rw [FileTree.advance_enter hs (by decide) lookup_m (by simp),
      FileTree.advance_enter rfl (by decide) lookup_u (by simp), FileTree.advance_above rfl,
      FileTree.advance_enter rfl isName_x lookup_behind (by simp)]
    rfl
  exact ⟨_, FileTree.follow_arrived hm links, rfl⟩

theorem locateRoute_eq {fs : FileTree} {r : Route} {arrival : FileTree.Arrival}
    (ha : FileTree.admitted r.text = .ok ()) (hr : r.filter (· != "") = r)
    (hf : fs.follow FileTree.mostLinks fs.topSpot r = .ok arrival) :
    fs.locateRoute r = .ok arrival.spot.entry := by
  rw [FileTree.locateRoute, ha, hr, hf]

theorem locate_a {bytes : List UInt8} {t : Tree} :
    (v.tree (.file bytes t)).locateRoute ["a.ts"] = .ok (.file bytes t) := by
  have hparts : ∀ part ∈ v.around, Path.IsPart part := fun part => isPart_of_mem_around
  have hl := FileTree.advance_link (s := (v.tree (.file bytes t)).topSpot) rfl (by decide) lookup_a []
  obtain ⟨arrival, hf, he⟩ := follow_around v bytes t 37
  refine (locateRoute_eq (by decide) (by decide) ?_).trans (congrArg Except.ok he)
  rw [FileTree.mostLinks, FileTree.follow_relative hl (Path.isAbsolute_intercalate hparts),
    FileTree.followedParts_intercalate (by simp [around]) hparts, List.append_nil, hf]

theorem locate_b {bytes : List UInt8} {t : Tree} :
    (v.tree (.file bytes t)).locateRoute ["b.ts"] = .ok (.file bytes t) := by
  have ha : FileTree.advance (v.tree (.file bytes t)).topSpot ["b.ts"] =
      .arrived ((v.tree (.file bytes t)).topSpot.enter "b.ts" (.file bytes t)) := by
    rw [FileTree.advance_enter rfl (by decide) lookup_b (by simp)]
    rfl
  exact locateRoute_eq (by decide) (by decide) (FileTree.follow_arrived ha FileTree.mostLinks)

theorem at?_nest (m j : Nat) (rest : Route) :
    (v.nest e (m + j)).at? (List.replicate j v.name ++ rest) = (v.nest e m).at? rest := by
  induction j with
  | zero => rfl
  | succ j ih =>
    rw [← Nat.add_assoc, nest, List.replicate_succ, List.cons_append, Entry.at?, Entry.child?]
    simpa [Entry.children] using ih

theorem entry?_way {m j : Nat} (h : m + j = v.below) (rest : Route) :
    FileTree.entry? (v.tree e) (List.replicate (j + 1) v.name ++ rest) =
      (v.nest e m).at? rest := by
  rw [← at?_nest m j rest, h, FileTree.entry?, List.replicate_succ, List.cons_append, Entry.at?]
  have hl : (v.tree e).top.child? v.name = some (v.nest e v.below) := lookup_name
  rw [hl]
  rfl

theorem not_mem_replicate (n : Nat) : ".." ∉ List.replicate n v.name := by
  intro h
  exact v.isName.ne_above (List.eq_of_mem_replicate h).symm

theorem linkTarget?_way {j : Nat} (h : j ≤ v.below) :
    (v.tree e).linkTarget? ⟨true, List.replicate (j + 1) v.name⟩ = none := by
  refine FileTree.linkTarget?_of_ne_link (e := v.nest e (v.below - j)) ?_ (nest_ne_link _)
  rw [LinkFree.route_eq (not_mem_replicate _), List.reverse_replicate]
  have he := entry?_way (v := v) (e := e) (m := v.below - j) (j := j) (by omega) []
  simpa [Entry.at?] using he

def deepest (v : Detour) : LinkFree := ⟨true, v.way⟩

theorem resolvePieces_way
    {intoLink : FileTree.Replaced → LinkFree → String →
      Except Failure (FileTree.Resolution × FileTree.Replaced)}
    {replaced : FileTree.Replaced} {i j : Nat} (h : i + j = v.below + 1) (rest : List String) :
    (v.tree e).resolvePieces intoLink replaced ⟨true, List.replicate i v.name⟩
      (List.replicate j v.name ++ rest) =
        (v.tree e).resolvePieces intoLink replaced v.deepest rest := by
  induction j generalizing i with
  | zero =>
    obtain rfl : i = v.below + 1 := h
    rfl
  | succ j ih =>
    rw [List.replicate_succ, List.cons_append,
      FileTree.resolvePieces_enter v.isName (linkTarget?_way (by omega))]
    exact ih (i := i + 1) (by omega)

def loop (v : Detour) : String := (v.deepest.enter "x.ts").text

theorem text_enter_deepest (v : Detour) (name : String) :
    (v.deepest.enter name).text = "/" ++ String.intercalate "/" (v.way ++ [name]) := by
  simp [LinkFree.text, LinkFree.enter, deepest, way, List.reverse_replicate]

theorem utf8ByteSize_enter_deepest (v : Detour) (name : String) :
    (v.deepest.enter name).text.utf8ByteSize =
      (v.below + 1) * (v.name.utf8ByteSize + 1) + name.utf8ByteSize + 1 := by
  have hs := utf8ByteSize_intercalate_replicate v.name v.below
  have h1 : "/".utf8ByteSize = 1 := by decide
  rw [text_enter_deepest, String.intercalate_append_of_ne_nil way_ne_nil (by simp),
    String.intercalate_singleton]
  simp only [String.utf8ByteSize_append, h1, way]
  omega

theorem linkTarget?_far : (v.tree e).linkTarget? (v.deepest.enter v.far) = none := by
  refine FileTree.linkTarget?_of_longest ?_
  rw [utf8ByteSize_enter_deepest]
  exact v.tooFar

theorem linkTarget?_x : (v.tree e).linkTarget? (v.deepest.enter "x.ts") = some "x.ts" := by
  refine FileTree.linkTarget?_of_link ?_ ?_
  · have hn : ".." ∉ "x.ts" :: v.way :=
      List.not_mem_cons_of_ne_of_not_mem (by decide) (not_mem_replicate _)
    have hr : (v.deepest.enter "x.ts").route (v.tree e).current = v.way ++ ["x.ts"] := by
      refine (LinkFree.route_eq hn _).trans ?_
      simp [way, List.reverse_replicate]
    have he := entry?_way (v := v) (e := e) (m := 0) (j := v.below) (by omega) ["x.ts"]
    rw [hr, way, he, nest, Entry.at?, Entry.child?, Entry.children, lookup_x]
    rfl
  · rw [utf8ByteSize_enter_deepest]
    have h4 : "x.ts".utf8ByteSize = 4 := by decide
    have hv := v.reachable
    omega

theorem linkTarget?_top {name target : String} (hn : Path.IsName name)
    (hl : (v.tree e).children.lookup name = some (.link target)) :
    (v.tree e).linkTarget? (LinkFree.top.enter name) = some target := by
  refine FileTree.linkTarget?_of_link ?_ ?_
  · have hr : (LinkFree.top.enter name).route (v.tree e).current = [name] :=
      LinkFree.route_eq (by simpa [LinkFree.top] using Ne.symm hn.ne_above) _
    have hc : (v.tree e).top.child? name = some (.link target) := hl
    rw [hr, FileTree.entry?, Entry.at?, hc]
    rfl
  · have h1 : "/".utf8ByteSize = 1 := by decide
    have hs := hn.short
    simp only [FileTree.longestName] at hs
    simp only [LinkFree.text, LinkFree.enter, LinkFree.top, List.reverse_singleton,
      String.intercalate_singleton, if_true, String.utf8ByteSize_append, h1, FileTree.longestPath]
    omega

theorem join_loop (v : Detour) : Path.join v.loop "" = v.loop ++ "/" := by
  refine Path.join_empty ?_ ?_
  · rw [loop, text_enter_deepest, String.intercalate_append_of_ne_nil way_ne_nil (by simp),
      String.intercalate_singleton, ← String.append_assoc]
    exact isName_x.hasFinalSlash_append _
  · intro h
    have hs := utf8ByteSize_enter_deepest v "x.ts"
    rw [← loop, h] at hs
    simp at hs

theorem join_loop_slash (v : Detour) : Path.join (v.loop ++ "/") "" = v.loop ++ "/" :=
  Path.join_empty_of_hasFinalSlash (by simp [Path.hasFinalSlash])

/-- Resolving goes round at the link to itself. -/
theorem resolveFrom_x (depth : Nat) (replaced : FileTree.Replaced) :
    (v.tree e).resolveFrom (depth + 1) ((v.loop, none) :: replaced) v.deepest "x.ts" =
      .ok (.looped (v.loop ++ "/"), (v.loop, none) :: replaced) := by
  have hp : Path.pieces "x.ts" = ["x.ts"] := isName_x.toIsPart.pieces_eq
  rw [FileTree.resolveFrom_relative (by decide), hp,
    FileTree.resolvePieces_again isName_x linkTarget?_x (by simp [loop])]
  have hj := join_loop v
  rw [loop] at hj ⊢
  rw [String.intercalate_nil, hj]

/-- Resolving the path around takes the far link for a directory, and turns back before it. -/
theorem resolvePieces_around (depth : Nat) {replaced : FileTree.Replaced}
    (hr : replaced.lookup v.loop = none) :
    (v.tree e).resolvePieces ((v.tree e).resolveFrom (depth + 1)) replaced v.deepest
      [v.far, "..", "x.ts"] = .ok (.looped (v.loop ++ "/"), (v.loop, none) :: replaced) := by
  have hparent : (v.deepest.enter v.far).parent = v.deepest := by
    simp [LinkFree.parent, LinkFree.enter, v.isName_far.ne_above]
  rw [FileTree.resolvePieces_enter v.isName_far linkTarget?_far, FileTree.resolvePieces_above,
    hparent, FileTree.resolvePieces_looped isName_x linkTarget?_x hr (resolveFrom_x depth replaced)]
  simp only [String.intercalate_nil, join_loop_slash]

theorem resolveFrom_way (depth : Nat) (replaced : FileTree.Replaced) :
    (v.tree e).resolveFrom (depth + 1) replaced .top (String.intercalate "/" v.way) =
      .ok (.free v.deepest, replaced) := by
  have hparts : ∀ part ∈ v.way, Path.IsPart part := fun part => isPart_of_mem_way
  have hw : (v.tree e).resolvePieces ((v.tree e).resolveFrom depth) replaced .top (v.way ++ []) =
      (v.tree e).resolvePieces ((v.tree e).resolveFrom depth) replaced v.deepest [] :=
    resolvePieces_way (i := 0) (j := v.below + 1) (Nat.zero_add _) []
  rw [FileTree.resolveFrom_relative (Path.isAbsolute_intercalate hparts),
    Path.pieces_intercalate way_ne_nil hparts, ← List.append_nil v.way, hw]
  rfl

theorem beq_loop (v : Detour) {path : String} (h : path.utf8ByteSize ≤ 5) :
    (v.loop == path) = false := by
  refine beq_eq_false_iff_ne.2 ?_
  rintro rfl
  have hs := utf8ByteSize_enter_deepest v "x.ts"
  have h4 : "x.ts".utf8ByteSize = 4 := by decide
  have hpos : 0 < (v.below + 1) * (v.name.utf8ByteSize + 1) :=
    Nat.mul_pos (Nat.succ_pos _) (Nat.succ_pos _)
  rw [loop] at h
  omega

theorem resolveFrom_around (depth : Nat) {replaced : FileTree.Replaced}
    (hl : replaced.lookup "/l" = none) (hr : replaced.lookup v.loop = none) :
    ∃ after, (v.tree e).resolveFrom (depth + 3) replaced .top (String.intercalate "/" v.around) =
      .ok (.looped (v.loop ++ "/"), after) := by
  have hparts : ∀ part ∈ v.around, Path.IsPart part := fun part => isPart_of_mem_around
  have ht : (LinkFree.top.enter "l").text = "/l" := by decide
  have hne : (v.loop == "/l") = false := beq_loop v (by decide)
  have hi := resolveFrom_way (v := v) (e := e) (depth + 1) (("/l", none) :: replaced)
  rw [FileTree.resolveFrom_relative (Path.isAbsolute_intercalate hparts),
    Path.pieces_intercalate (by simp [around]) hparts, around,
    FileTree.resolvePieces_free (by decide) (linkTarget?_top (by decide) lookup_l) (by rw [ht, hl])
      (by rw [ht]; exact hi), ht]
  exact ⟨_, resolvePieces_around (depth + 1) (by simp [List.lookup_cons, hne, hr])⟩

def stuck (v : Detour) : Route := v.way ++ ["x.ts"]

theorem isName_of_mem_stuck {name : String} (h : name ∈ v.stuck) : Path.IsName name := by
  rcases List.mem_append.1 h with hw | hx
  · rw [List.eq_of_mem_replicate hw]
    exact v.isName
  · rw [List.mem_singleton.1 hx]
    exact isName_x

theorem loop_eq (v : Detour) : v.loop = "/" ++ String.intercalate "/" v.stuck :=
  text_enter_deepest v "x.ts"

theorem text_stuck (v : Detour) : v.stuck.text = v.loop := by
  rw [loop_eq, Route.text_eq fun name hm => (isName_of_mem_stuck hm).ne_empty]

theorem stuck_ne_nil : v.stuck ≠ [] := by simp [stuck]

theorem isPart_of_mem_stuck {name : String} (h : name ∈ v.stuck) : Path.IsPart name :=
  (isName_of_mem_stuck h).toIsPart

theorem parts_loop (v : Detour) : Path.parts (v.loop ++ "/") = v.stuck := by
  have he : v.loop ++ "/" = "/" ++ (String.intercalate "/" v.stuck ++ "/" ++ "") := by
    simp [loop_eq, String.append_assoc]
  have hf : v.stuck.filter Path.isMeaningful = v.stuck :=
    List.filter_eq_self.2 fun name hm => (isName_of_mem_stuck hm).isMeaningful
  have h0 : Path.isMeaningful "" = false := by decide
  have hp : Path.pieces "" = [""] := by decide
  rw [Path.parts, he, Path.pieces_slash, Path.pieces_append,
    Path.pieces_intercalate stuck_ne_nil fun name hm => isPart_of_mem_stuck hm, hp]
  simp [h0, hf]

theorem intercalate_stuck_ne_empty (v : Detour) : String.intercalate "/" v.stuck ≠ "" := by
  intro h
  have hl : (v.loop == "/") = false := beq_loop v (by decide)
  rw [loop_eq, h] at hl
  exact absurd hl (by decide)

theorem routeOf_loop (v : Detour) : FileTree.routeOf [] (v.loop ++ "/") = v.stuck := by
  have hslash : Path.isAbsolute (String.intercalate "/" v.stuck ++ "/") = false := by
    rw [Path.isAbsolute_append (intercalate_stuck_ne_empty v)]
    exact Path.isAbsolute_intercalate fun name hm => isPart_of_mem_stuck hm
  have hlead : Path.leadingSlashes (v.loop ++ "/") = "/" := by
    rw [loop_eq, String.append_assoc, Path.leadingSlashes_slash hslash]
  have habove : ".." ∉ v.stuck := fun h => (isName_of_mem_stuck h).ne_above rfl
  have h2 : ("/" == "//") = false := by decide
  simp only [FileTree.routeOf, hlead, h2, Bool.false_eq_true, if_false, parts_loop, ite_self,
    List.nil_append, FileTree.normalized_eq habove]

theorem locate_stuck (v : Detour) (e : Entry) :
    (v.tree e).locateRoute v.stuck = .error .tooManyLinks := by
  obtain ⟨t, ht, ha⟩ := advance_way (v := v) (e := e)
  have hadmitted : FileTree.admitted v.stuck.text = .ok () := by
    have hne : (v.loop == "") = false := beq_loop v (by decide)
    have hs := utf8ByteSize_enter_deepest v "x.ts"
    have h4 : "x.ts".utf8ByteSize = 4 := by decide
    have hv := v.reachable
    rw [FileTree.admitted, text_stuck, hne, if_neg Bool.false_ne_true, if_neg (by rw [loop]; omega)]
  have hfilter : v.stuck.filter (· != "") = v.stuck :=
    List.filter_eq_self.2 fun name hm => by simpa using (isPart_of_mem_stuck hm).ne_empty
  have hself : (v.tree e).follow FileTree.mostLinks t ["x.ts"] = .error .tooManyLinks :=
    FileTree.follow_self ht isName_x lookup_x (by decide) (by decide) FileTree.mostLinks
  rw [FileTree.locateRoute, hadmitted, hfilter, stuck, FileTree.follow_congr (ha _), hself]

theorem resolve_a (v : Detour) (e : Entry) :
    (v.tree e).resolve "/a.ts" = .error (.linkLoop v.loop) := by
  have ht : (LinkFree.top.enter "a.ts").text = "/a.ts" := by decide
  have hne : (v.loop == "/a.ts") = false := beq_loop v (by decide)
  have hl : List.lookup v.loop [("/a.ts", (none : Option LinkFree))] = none := by
    simp [List.lookup_cons, hne]
  obtain ⟨after, hi⟩ := resolveFrom_around (e := e) 996 (by decide) hl
  have hd : Path.display "/a.ts" = "/a.ts" := by decide
  have hp : Path.pieces "/a.ts" = ["", "a.ts"] := by decide
  have hr : (v.tree e).resolveFrom FileTree.deepestLink [] .here "/a.ts" =
      .ok (.looped (v.loop ++ "/"), after) := by
    rw [FileTree.deepestLink, FileTree.resolveFrom_absolute (by decide), hp,
      FileTree.resolvePieces_empty,
      FileTree.resolvePieces_looped (by decide) (linkTarget?_top (by decide) lookup_a) rfl
        (by rw [ht]; exact hi)]
    simp only [String.intercalate_nil, join_loop_slash]
  have hnull : v.stuck.any Path.hasNull = false :=
    List.any_eq_false.2 fun name hm => by simp [(isName_of_mem_stuck hm).hasNull]
  have hroute : FileTree.routeOf (v.tree e).current (v.loop ++ "/") = v.stuck := routeOf_loop v
  simp only [FileTree.resolve, hd, hr, hroute, hnull, Bool.false_eq_true, if_false, locate_stuck,
    text_stuck]

theorem resolve_b (v : Detour) (bytes : List UInt8) (t : Tree) :
    (v.tree (.file bytes t)).resolve "/b.ts" = .ok ["b.ts"] := by
  have hc : (v.tree (.file bytes t)).top.child? "b.ts" = some (.file bytes t) := lookup_b
  have hr : (LinkFree.top.enter "b.ts").route (v.tree (.file bytes t)).current = ["b.ts"] :=
    LinkFree.route_eq (by decide) _
  have hn : (v.tree (.file bytes t)).linkTarget? (LinkFree.top.enter "b.ts") = none := by
    refine FileTree.linkTarget?_of_ne_link (e := .file bytes t) ?_ (by simp)
    rw [hr, FileTree.entry?, Entry.at?, hc]
    rfl
  have hd : Path.display "/b.ts" = "/b.ts" := by decide
  have hp : Path.pieces "/b.ts" = ["", "b.ts"] := by decide
  have hf : (v.tree (.file bytes t)).resolveFrom FileTree.deepestLink [] .here "/b.ts" =
      .ok (.free (LinkFree.top.enter "b.ts"), []) := by
    rw [FileTree.deepestLink, FileTree.resolveFrom_absolute (by decide), hp,
      FileTree.resolvePieces_empty, FileTree.resolvePieces_enter (by decide) hn]
    rfl
  have hroute : FileTree.routeOf (v.tree (.file bytes t)).current (LinkFree.top.enter "b.ts").text =
      ["b.ts"] := by
    have hcur : (v.tree (.file bytes t)).current = [] := rfl
    rw [hcur]
    decide
  have hnull : ["b.ts"].any Path.hasNull = false := by decide
  simp only [FileTree.resolve, hd, hf, hroute, hnull, Bool.false_eq_true, if_false, locate_b]

end Detour

theorem Glob.flatMapTested_eq {α β : Type} {f : α → Except Failure (List β)} {g : α → List β}
    {l : List α} (h : ∀ a ∈ l, f a = .ok (g a)) : flatMapTested f l = .ok (l.flatMap g) := by
  induction l with
  | nil => rfl
  | cons a l ih =>
    rw [flatMapTested, h a List.mem_cons_self, ih fun b hb => h b (List.mem_cons_of_mem a hb)]
    rfl

theorem FileTree.test_file {fs : FileTree} {r : Route} {bytes : List UInt8} {t : Tree}
    (hr : r.any Path.hasNull = false) (h : fs.locateRoute r = .ok (.file bytes t))
    (p : Entry → Bool) : fs.test p r = .ok (p (.file bytes t)) := by
  simp [test, hr, h, found]

namespace Discovery

variable {fs : FileTree}

/-- A pattern that is the name of a file in the top directory selects it. -/
theorem matched_file {name : String} {bytes : List UInt8} {t : Tree} (hn : Path.IsName name)
    (hg : Glob.ofString name = .ok ⟨[.name name], false⟩)
    (h : fs.locateRoute [name] = .ok (.file bytes t)) (excluded : List String) :
    matched fs excluded [] name = .ok [[name]] := by
  have hr : [name].any Path.hasNull = false := by simp [hn.hasNull]
  have hs : Glob.select fs ⟨[.name name], false⟩ [] = .ok [[name]] := by
    simp [Glob.select, Glob.selectFrom, FileTree.test_file hr h]
  simp [matched, hg, hs, bind, Except.bind, isExcluded, directoryParts, Glob.filterTested,
    FileTree.test_file hr h, Entry.isFile]

theorem find_top {patterns excluded : List String} (hc : fs.current = [])
    (hp : ∀ pattern ∈ patterns, isRelativePattern pattern = true)
    (h : ∀ pattern ∈ patterns, matched fs excluded [] pattern = .ok [[pattern]]) :
    find fs "/" patterns excluded = .ok ⟨[], (patterns.map ([·])).eraseDups⟩ := by
  have hn : patterns.find? (!isRelativePattern ·) = none := by simpa using hp
  have hr : fs.resolve "/" = .ok [] := by
    cases fs
    cases hc
    rfl
  have ht : fs.test Entry.isDirectory [] = .ok true := rfl
  have hf : Glob.flatMapTested (matched fs excluded []) patterns = .ok (patterns.map ([·])) := by
    rw [Glob.flatMapTested_eq h, ← List.map_eq_flatMap]
  simp [find, hn, hr, ht, hf, bind, Except.bind, pure, Except.pure]

end Discovery

namespace Detour

theorem find_files (v : Detour) (bytes : List UInt8) (t : Tree) {patterns : List String}
    (hp : ∀ pattern ∈ patterns, pattern = "a.ts" ∨ pattern = "b.ts") (excluded : List String) :
    Discovery.find (v.tree (.file bytes t)) "/" patterns excluded =
      .ok ⟨[], (patterns.map ([·])).eraseDups⟩ := by
  refine Discovery.find_top rfl (fun pattern hm => ?_) fun pattern hm => ?_
  · rcases hp pattern hm with rfl | rfl <;> decide
  · rcases hp pattern hm with rfl | rfl
    · exact Discovery.matched_file (by decide) rfl locate_a excluded
    · exact Discovery.matched_file (by decide) rfl locate_b excluded

/-- Sixteen directories with names of 243 letters, and a link whose name has 250. -/
def sixteen : Detour where
  name := String.ofList (List.replicate 243 'd')
  below := 15
  far := String.ofList (List.replicate 250 'k')
  isName := Path.isName_replicate (by decide) (by decide) (by decide)
  isName_far := Path.isName_replicate (by decide) (by decide) (by decide)
  longer := by rw [Path.utf8ByteSize_replicate]; decide
  longer_far := by rw [Path.utf8ByteSize_replicate]; decide
  reachable := by rw [Path.utf8ByteSize_replicate]; decide
  tooFar := by rw [Path.utf8ByteSize_replicate, Path.utf8ByteSize_replicate]; decide

def project : FileTree := sixteen.tree (.file [] (.node ⟨"program", true, false, ⟨0, 0⟩, []⟩ []))

end Detour

end ComponentSurvey
