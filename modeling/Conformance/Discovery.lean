import Conformance.Fixture
import Conformance.Log
import Conformance.World

/-!
# Discovering fixtures

The walk below a root visits every entry it can reach, links followed. In a directory everything
that is not itself a directory comes first, then the directories, both in the byte order of names. A
link to a directory is refused if that directory is already on the way to it.

Directories and links are looked at by their paths below the root, as `World.locate` resolves them:
a path is refused that is too long or has too many links on it, also where the entry itself is
sound. What is refused is reported and passed over. Other entries are listed as they are.

Only links are checked against the way. The walk still ends: a link that is followed leads to a
directory not yet on the way, of which there are finitely many (`remaining`), and between two links
the walk goes down a finite tree.
-/

namespace Conformance

mutual

/-- The locations of an entry and of the directories below it, as far as they are directories. -/
def Entry.directories (loc : Location) : Entry → List Location
  | .directory es => loc :: Entry.directoriesIn loc es
  | .file _ _ => []
  | .link _ => []
  | .device => []

def Entry.directoriesIn (loc : Location) : List (Bytes × Entry) → List Location
  | [] => []
  | (name, e) :: es => e.directories (loc ++ [name]) ++ Entry.directoriesIn loc es

end

def FileSystem.directories (fs : FileSystem) : List Location := fs.root.directories []

namespace Discovery

def bytesLE : Bytes → Bytes → Bool
  | [], _ => true
  | _ :: _, [] => false
  | a :: as, b :: bs => a < b || (a == b && bytesLE as bs)

/-- The order of visits in a directory: directories come last, names ascend. -/
def comesBefore (a b : Bytes × Entry) : Bool :=
  if a.2.isDirectory == b.2.isDirectory then bytesLE a.1 b.1 else b.2.isDirectory

def inOrder (es : List (Bytes × Entry)) : List (Bytes × Entry) := es.mergeSort comesBefore

/-- A directory on the way to an entry. -/
structure Ancestor where
  path : Path
  location : Location
deriving DecidableEq, Repr

inductive Obstacle where
  | unreadable (e : FileError)
  /-- It is a link to a directory on the way, which has this path. -/
  | loop (ancestor : Path)
deriving DecidableEq, Repr

inductive Visit where
  | file (p : Path)
  | directory (p : Path)
  /-- Something else than a file or a directory. -/
  | other (p : Path)
  | passedOver (p : Path) (o : Obstacle)
deriving DecidableEq, Repr

/-- The number of directories that are not on the way. -/
def remaining (fs : FileSystem) (way : List Ancestor) : Nat :=
  fs.directories.countP fun d => way.all fun a => a.location != d

theorem mem_of_lookup {α β : Type} [BEq α] [LawfulBEq α] {a : α} {b : β} :
    ∀ {l : List (α × β)}, l.lookup a = some b → (a, b) ∈ l
  | [], h => by simp at h
  | (k, v) :: l, h => by
    rw [List.lookup_cons] at h
    by_cases hk : (a == k) = true
    · simp [hk] at h
      simp [eq_of_beq hk, h]
    · simp only [Bool.not_eq_true] at hk
      simp only [hk] at h
      exact List.mem_cons_of_mem _ (mem_of_lookup h)

theorem mem_directoriesIn {loc d : Location} {name : Bytes} {e : Entry} :
    ∀ {es : List (Bytes × Entry)}, (name, e) ∈ es → d ∈ e.directories (loc ++ [name]) →
      d ∈ Entry.directoriesIn loc es
  | [], h, _ => by simp at h
  | (n, x) :: es, h, hd => by
    rw [Entry.directoriesIn, List.mem_append]
    rcases List.mem_cons.1 h with h | h
    · cases h
      exact .inl hd
    · exact .inr (mem_directoriesIn h hd)

theorem mem_directories_of_get? {es : List (Bytes × Entry)} :
    ∀ (base : Location) {loc : Location} {e : Entry}, e.get? loc = some (.directory es) →
      base ++ loc ∈ e.directories base
  | base, [], e, h => by
    simp only [Entry.get?, Option.some.injEq] at h
    subst h
    simp [Entry.directories]
  | base, name :: loc, e, h => by
    cases e with
    | directory xs =>
      simp only [Entry.get?] at h
      split at h
      next x hx =>
        have ih := mem_directories_of_get? (base ++ [name]) h
        rw [Entry.directories]
        refine List.mem_cons_of_mem _ (mem_directoriesIn (mem_of_lookup hx) ?_)
        simpa using ih
      next => simp at h
    | file _ _ => simp [Entry.get?] at h
    | link _ => simp [Entry.get?] at h
    | device => simp [Entry.get?] at h

theorem countP_lt_countP {α : Type} {p q : α → Bool} {x : α} :
    ∀ {l : List α}, (∀ a ∈ l, p a → q a) → x ∈ l → p x = false → q x = true →
      l.countP p < l.countP q
  | [], _, hx, _, _ => by simp at hx
  | a :: l, hpq, hx, hp, hq => by
    have hle : l.countP p ≤ l.countP q :=
      List.countP_mono_left fun b hb => hpq b (List.mem_cons_of_mem _ hb)
    rcases List.mem_cons.1 hx with rfl | hx
    · simp only [List.countP_cons, hp, hq]
      simp
      omega
    · have ih := countP_lt_countP (fun b hb => hpq b (List.mem_cons_of_mem _ hb)) hx hp hq
      have ha := hpq a (List.mem_cons_self ..)
      simp only [List.countP_cons]
      by_cases h : p a = true
      · simp [h, ha h]
        omega
      · simp [h]
        omega

theorem remaining_cons_le (fs : FileSystem) (a : Ancestor) (way : List Ancestor) :
    remaining fs (a :: way) ≤ remaining fs way := by
  refine List.countP_mono_left fun d _ h => ?_
  simp only [List.all_cons, Bool.and_eq_true] at h
  exact h.2

theorem remaining_cons_lt {fs : FileSystem} {a : Ancestor} {way : List Ancestor}
    {es : List (Bytes × Entry)} (ha : fs.get? a.location = some (.directory es))
    (hway : way.find? (fun b => b.location == a.location) = none) :
    remaining fs (a :: way) < remaining fs way := by
  have hmem : a.location ∈ fs.directories := by
    simpa [FileSystem.directories] using mem_directories_of_get? [] ha
  refine countP_lt_countP (fun d _ h => ?_) hmem (by simp) ?_
  · simp only [List.all_cons, Bool.and_eq_true] at h
    exact h.2
  · simpa [List.find?_eq_none, List.all_eq_true] using hway

theorem sizeOf_inOrder (es : List (Bytes × Entry)) : sizeOf (inOrder es) = sizeOf es :=
  (List.mergeSort_perm es comesBefore).sizeOf_eq_sizeOf

/-- Visits entries of the directory at a location, whose path is given, in order. -/
def visit (w : World) (way : List Ancestor) (path : Path) (loc : Location) :
    List (Bytes × Entry) → List Visit
  | [] => []
  | (name, e) :: rest =>
    let p := path.join ⟨name⟩
    (match e with
      | .file _ _ => [.file p]
      | .device => [.other p]
      | .directory es =>
        match w.locate p with
        | .error e => [.passedOver p (.unreadable e)]
        | .ok _ =>
          .directory p ::
            visit w (⟨p, loc ++ [name]⟩ :: way) p (loc ++ [name]) (inOrder es)
      | .link _ =>
        match w.locate p with
        | .error e => [.passedOver p (.unreadable e)]
        | .ok target =>
          match _hd : w.files.get? target with
          | some (.directory es) =>
            match _hw : way.find? (fun a => a.location == target) with
            | some a => [.passedOver p (.loop a.path)]
            | none => .directory p :: visit w (⟨p, target⟩ :: way) p target (inOrder es)
          | some (.file _ _) => [.file p]
          | _ => [.other p]) ++
    visit w way path loc rest
termination_by es => (remaining w.files way, sizeOf es)
decreasing_by
  · refine Prod.Lex.right' _ (remaining_cons_le w.files _ way) ?_
    rw [sizeOf_inOrder]
    simp only [List.cons.sizeOf_spec, Prod.mk.sizeOf_spec, Entry.directory.sizeOf_spec]
    omega
  · exact Prod.Lex.left _ _ (remaining_cons_lt _hd _hw)
  · refine Prod.Lex.right _ ?_
    simp only [List.cons.sizeOf_spec]
    omega

/-- Visits everything from a root on. The root itself is visited too, a link followed. -/
def walk (w : World) (root : Path) : List Visit :=
  match w.find false root with
  | .error e => [.passedOver root (.unreadable e)]
  | .ok (_, _) =>
    match w.find true root with
    | .error e => [.passedOver root (.unreadable e)]
    | .ok (loc, .directory es) =>
      .directory root :: visit w [⟨root, loc⟩] root loc (inOrder es)
    | .ok (_, .file _ _) => [.file root]
    | .ok (_, _) => [.other root]

def Obstacle.message (p : Path) : Obstacle → String
  | .unreadable e => "IO error for operation on " ++ p.display ++ ": " ++ e.message
  | .loop ancestor =>
    "File system loop found: " ++ p.display ++ " points to an ancestor " ++ ancestor.display

def Visit.warning? : Visit → Option Log.Event
  | .passedOver p o => some (Log.warn .discovery ("Skipping unreadable entry: " ++ o.message p))
  | _ => none

def Visit.fixture? (extension : String) : Visit → Option Path
  | .file p => if p.extension? = some (Utf8.encode extension) then some p else none
  | _ => none

/-- The fixtures under a root, and what was passed over on the way. -/
def collect (w : World) (root : Path) (extension : String) : List Fixture × List Log.Event :=
  let visits := walk w root
  ((visits.filterMap (Visit.fixture? extension)).map fun p => .ofPath p root,
    visits.filterMap Visit.warning?)

def nothingCollected (root : Path) : String := "No tests collected under " ++ root.display

/-- The fixtures under a root, refused if there are none, and what was told meanwhile. -/
def discover (w : World) (root : Path) (extension : String) :
    Except String (List Fixture) × List Log.Event :=
  let (fixtures, log) := collect w root extension
  if fixtures.isEmpty then (.error (nothingCollected root), log)
  else
    (.ok fixtures, log ++
      [Log.debug .discovery ("Collected " ++ Decimal.natText fixtures.length ++
        " fixtures under " ++ root.display)])

end Discovery

end Conformance
