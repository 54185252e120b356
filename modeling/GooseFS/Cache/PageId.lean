import GooseFS.Error

/-!
# Cache pages

The keys of the page cache, and what readers ask of it.  A file is cached in
pages of one fixed size; a page is named by the file's id and its index.
-/

namespace GooseFS

structure PageId where
  fileId : String
  pageIndex : Nat
  deriving DecidableEq, Repr

structure PageReadRequest where
  pageId : PageId
  pageOffset : Nat
  len : Nat
  deriving DecidableEq, Repr

inductive FillMode where
  | none
  | sync
  | async
  deriving DecidableEq, Repr

end GooseFS
