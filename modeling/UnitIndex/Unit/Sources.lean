import UnitIndex.Host.FileTree
import UnitIndex.Settings.Basic

/-!
The source files that paths stand for.

A directory stands for the files below it whose extensions are picked, hidden ones left out; any
other path stands for itself, whether or not there is a file. The list is sorted by path components
and holds no file name twice, so it does not depend on the order in which a directory is listed.
-/

namespace UnitIndex.Sources

/-- Whether a name is hidden from listings. -/
def isHidden (name : String) : Bool := name.startsWith "."

/-- The files below a directory that are picked, each as the directory's path with the names that
lead to the file behind it. -/
def below (tree : FileTree) (settings : IndexingSettings) (dir : Path) (place : List String) :
    List Path :=
  let paths := (tree.filesBelow isHidden tree.height place).map fun names =>
    names.foldl (fun p name => p.join ⟨name⟩) dir
  paths.filter fun p => p.extension?.any settings.picks

/-- What one path stands for. -/
def ofPath (tree : FileTree) (settings : IndexingSettings) (p : Path) : List Path :=
  match tree.locate? p with
  | some place => if tree.isDirAt place then below tree settings p place else [p]
  | none => [p]

/-- The list without paths that are the same as an earlier one. -/
def distinct (paths : List Path) : List Path :=
  (paths.foldl (fun kept p => if kept.any p.same then kept else p :: kept) []).reverse

/-- The source files that the paths stand for. -/
def collect (tree : FileTree) (settings : IndexingSettings) (paths : List Path) : List Path :=
  (distinct (paths.flatMap (ofPath tree settings))).mergeSort fun p q => !q.lt p

end UnitIndex.Sources
