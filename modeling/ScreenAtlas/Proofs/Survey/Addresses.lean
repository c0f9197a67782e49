import Mathlib.Data.List.Forall2
import ScreenAtlas.Proofs.FileSystem.Sources
import ScreenAtlas.Proofs.Path.Text
import ScreenAtlas.Proofs.Route.Segments
import ScreenAtlas.Proofs.Survey.Scan
/-!
# The routes of collected files

Collecting files, taking the views directory off their paths and making addresses of what is left
are three readings of the same path. Where all names are plain they agree: a file that was collected
has a route that leads back to it, with an address in which every segment can be seen.

## Main definitions

* `FileSystem.PlainNames` — the file systems in which all names are plain.
* `Route.WellPlaced` — a route that fits the file that it was made for.

## Main statements

* `wellPlaced_derive` — the route of a source file.
* `routes_of_plain_names` — the routes after a collection and a scan.
-/
namespace ScreenAtlas

namespace FileSystem

/-- Every name that something is bound to is plain. -/
def PlainNames (fs : FileSystem) : Prop :=
  ∀ n l m, fs.node? (n :: l) = some m → n.IsPlain

variable {fs : FileSystem} {root : Path} {names : List Name}

/-- Plain names can be told from the bindings. -/
theorem plainNames_of_bindings (h : ∀ b ∈ fs.bindings, ∀ n ∈ b.1, n.IsPlain) : fs.PlainNames := by
  intro n l m hnode
  obtain ⟨b, hb, hl⟩ := exists_mem_bindings hnode
  exact h b hb n (by simp [hl])

/-- What holds of every name that something is bound to holds of the names of a walk. -/
theorem Walkable.forall_of_bound {P : Name → Prop}
    (h : ∀ n l m, fs.node? (n :: l) = some m → P n) (hwalk : fs.Walkable root names) :
    ∀ n ∈ names, P n := by
  intro n hn
  obtain ⟨before, after, rfl⟩ := List.append_of_mem hn
  rw [List.append_cons] at hwalk
  obtain ⟨l, hl⟩ := hwalk.of_append.of_append.exists_stat
  obtain ⟨t, ht⟩ := hwalk.of_append.exists_stat
  rw [below_snoc] at ht
  obtain ⟨⟨m, hnode⟩, -⟩ := of_stat_join hl ht
  exact h n l m hnode

/-- What holds of every name that something is bound to holds on the way to a file below a root. -/
theorem FileBelow.forall_of_bound {P : Name → Prop}
    (h : ∀ n l m, fs.node? (n :: l) = some m → P n) (hwalk : fs.Walkable root names) {n : Name}
    (hfile : fs.FileBelow root names n) : ∀ m ∈ names ++ [n], P m := by
  have hlast : P n := by
    obtain ⟨l, bytes, -, hnode⟩ | ⟨t, bytes, ht⟩ := hfile
    · exact h n l _ hnode
    · obtain ⟨l, hl⟩ := hwalk.exists_stat
      rw [below_snoc] at ht
      obtain ⟨⟨m, hnode⟩, -⟩ := of_stat_join hl ht
      exact h n l m hnode
  intro m hm
  rcases List.mem_append.mp hm with hm | hm
  · exact hwalk.forall_of_bound h m hm
  · rwa [List.mem_singleton.mp hm]

/-- A collected file is the root followed by plain names, the last of them that of a source file. -/
theorem exists_names_of_mem_sources (h : fs.PlainNames) {file : Path}
    (hfile : file ∈ fs.sources root) : root.bytes ≠ [] ∧
      ∃ front n, file = root.below (front ++ [n]) ∧ (∀ m ∈ front ++ [n], m.IsPlain) ∧
        n.IsSource := by
  obtain ⟨front, n, hwalk, hbelow, hsource, rfl⟩ := mem_sources.mp hfile
  exact ⟨hwalk.bytes_ne_nil, front, n, rfl, hbelow.forall_of_bound h hwalk, hsource⟩

end FileSystem

namespace Route

/-- A route that fits a file under a views directory. -/
structure WellPlaced (file views : Path) (r : Route) : Prop where
  /-- The relative path leads back to the file. -/
  located : views.join (.ofString r.relativePath) = file
  /-- The address has the segments that are kept of the relative path without its extension. -/
  address : ∃ kept, IsKept (segments r.relativePath.toList) kept ∧ AddressOf r.address.toList kept
  not_doubled : ¬['/', '/'] <:+: r.address.toList
  getLast?_ne : r.address ≠ "/" → r.address.toList.getLast? ≠ some '/'
  /-- The extension of the file is taken off once, and a stem is left as the last segment. -/
  ending : ∃ e ∈ Path.sourceExtensions, file.extension? = some e ∧
    stripEnding r.relativePath.toList ++ '.' :: e.toList = r.relativePath.toList ∧
    ∃ stem, stem ≠ [] ∧ (segments r.relativePath.toList).getLast? = some stem

/-- **The route of a source file** below a views directory fits the file. -/
theorem wellPlaced_derive {views : Path} (hviews : views.bytes ≠ []) {front : List Name} {n : Name}
    (hplain : ∀ m ∈ front ++ [n], m.IsPlain) (hsource : n.IsSource) :
    WellPlaced (views.below (front ++ [n])) views (derive (views.below (front ++ [n])) views) := by
  have hne : front ++ [n] ≠ [] := by simp
  have hn : n.IsPlain := hplain n (by simp)
  obtain ⟨stem, hstem, e, he, htext, hext⟩ := hn.exists_stem hsource
  have hpath : ((views.below (front ++ [n])).relativeText views).toList =
      ['/'].intercalate (front.map Name.text ++ [stem ++ '.' :: e.toList]) := by
    rw [Path.relativeText_below hviews hne hplain, String.toList_ofList, List.map_append,
      List.map_singleton, htext]
  have hsegment : ∀ s ∈ front.map Name.text ++ [stem], s ≠ [] ∧ '/' ∉ s := by
    intro s hs
    obtain hs | hs := List.mem_append.mp hs
    · obtain ⟨m, hm, rfl⟩ := List.mem_map.mp hs
      have hm' : m.IsPlain := hplain m (by simp [hm])
      exact ⟨hm'.text_ne_nil, hm'.slash_notMem⟩
    · rw [List.mem_singleton.mp hs]
      exact ⟨hstem, fun hmem => hn.slash_notMem (by simp [htext, hmem])⟩
  have hsegments : segments ((views.below (front ++ [n])).relativeText views).toList =
      front.map Name.text ++ [stem] := by
    rw [hpath, segments_of_source (fun s hs => (hsegment s hs).2) he]
  have haddress := addressOf_source hpath hsegment he
  rw [← hsegments] at haddress
  refine ⟨Path.join_relativeText hviews hne hplain, ⟨_, isKept_iff.mpr rfl, haddress⟩,
    not_doubled_address _, haddress.getLast?_ne, ?ending⟩
  refine ⟨e, he, (Path.extension?_below hviews front n e).mpr hext, ?_, stem, hstem, ?_⟩
  · change stripEnding ((views.below (front ++ [n])).relativeText views).toList ++ _ =
      ((views.below (front ++ [n])).relativeText views).toList
    rw [hpath, intercalate_append_last, stripEnding_append _ he]
  · change (segments ((views.below (front ++ [n])).relativeText views).toList).getLast? = _
    rw [hsegments, List.getLast?_concat]

end Route

namespace Survey

/-- The screens after a collection and a scan are those of the collected files. -/
theorem screens_collect_scan (fs fs' : FileSystem) (s : Survey) :
    ((s.collect fs).scan fs').screens =
      (fs.sources s.settings.viewsRoot).map (screenOf fs' (s.collect fs)) := by
  rw [scan_eq]
  rfl

/-- **The routes after a collection and a scan**, whatever the files are by the time of the scan.
Their relative paths are strictly increasing in the order of their bytes, and so are all different.
Route by route, in the order of the collected files, the relative path leads back to the file, the
address is a single slash or has a slash in front of each segment that is kept of that path without
its extension, none of which is empty, a group or private, and the extension that the file was
collected for is taken off once and leaves a stem. -/
theorem routes_of_plain_names (fs fs' : FileSystem) (s : Survey) (t : Instant)
    (h : fs.PlainNames) :
    let routes := (((s.collect fs).scan fs').build t).screens.map (·.route)
    routes.Pairwise (fun r r' =>
      (Path.ofString r.relativePath).bytes < (Path.ofString r'.relativePath).bytes) ∧
    (routes.map (·.relativePath)).Nodup ∧
    List.Forall₂ (fun file r => r.WellPlaced file s.settings.viewsRoot)
      (fs.sources s.settings.viewsRoot) routes := by
  intro routes
  have hroutes : routes = (fs.sources s.settings.viewsRoot).map
      (Route.derive · s.settings.viewsRoot) := by
    simp only [routes, build, screens_collect_scan, List.map_map]
    rfl
  have hincreasing : routes.Pairwise fun r r' =>
      (Path.ofString r.relativePath).bytes < (Path.ofString r'.relativePath).bytes := by
    rw [hroutes, List.pairwise_map]
    refine (FileSystem.pairwise_sources fs s.settings.viewsRoot).imp_of_mem ?_
    intro file file' hfile hfile' hlt
    obtain ⟨hviews, front, n, rfl, hplain, -⟩ := FileSystem.exists_names_of_mem_sources h hfile
    obtain ⟨-, front', n', rfl, hplain', -⟩ := FileSystem.exists_names_of_mem_sources h hfile'
    exact Path.relativeText_lt hviews (by simp) hplain (by simp) hplain' hlt
  refine ⟨hincreasing, ?distinct, ?placed⟩
  case distinct =>
    refine List.pairwise_map.mpr (hincreasing.imp fun {r r'} hlt heq => ?_)
    rw [heq] at hlt
    exact List.lt_irrefl _ hlt
  case placed =>
    rw [hroutes, List.forall₂_map_right_iff, List.forall₂_same]
    intro file hfile
    obtain ⟨hviews, front, n, rfl, hplain, hsource⟩ :=
      FileSystem.exists_names_of_mem_sources h hfile
    exact Route.wellPlaced_derive hviews hplain hsource

/-- A directory of views with a group, a private file, and a stem that ends like a source file. -/
def smallProject : FileSystem :=
  let app : Name := ⟨Utf8.encode "app".toList, by decide⟩
  let tabs : Name := ⟨Utf8.encode "(tabs)".toList, by decide⟩
  ⟨[([app], .directory), ([tabs, app], .directory),
    ([⟨Utf8.encode "a.ts.tsx".toList, by decide⟩, tabs, app], .file []),
    ([⟨Utf8.encode "_b.js".toList, by decide⟩, app], .file [])], []⟩

/-- The two files of the small project have routes that fit them. -/
theorem routes_of_smallProject :
    smallProject.PlainNames ∧
      smallProject.sources Settings.standard.viewsRoot =
        [.ofString "./app/(tabs)/a.ts.tsx", .ofString "./app/_b.js"] ∧
      List.Forall₂ (fun file r => r.WellPlaced file Settings.standard.viewsRoot)
        [.ofString "./app/(tabs)/a.ts.tsx", .ofString "./app/_b.js"]
        (((((new .standard).collect smallProject).scan smallProject).build ⟨0, 0⟩).screens.map
          (·.route)) := by
  have hplain : smallProject.PlainNames := FileSystem.plainNames_of_bindings (by decide)
  have hfiles : smallProject.sources Settings.standard.viewsRoot =
      [.ofString "./app/(tabs)/a.ts.tsx", .ofString "./app/_b.js"] := by decide +kernel
  obtain ⟨-, -, hplaced⟩ :=
    routes_of_plain_names smallProject smallProject (new .standard) ⟨0, 0⟩ hplain
  refine ⟨hplain, hfiles, ?_⟩
  rw [← hfiles]
  exact hplaced

end Survey

end ScreenAtlas
