import Outline.Manager.Mutate
import Outline.Manager.Read

/-!
A small book, and what the command line does with it.
-/
namespace Outline.CommandLine
set_option autoImplicit false

/-- A page of the book, with its parent and its title. -/
structure DemoPage where
  nid : PageId
  pid : PageId
  title : String

/-- The pages in the order in which they are placed. -/
def demoPages : List DemoPage :=
  [⟨1, 0, "Field guide"⟩,
   ⟨2, 1, "Getting started"⟩,
   ⟨3, 1, "Reference"⟩,
   ⟨4, 2, "Installing the tools on every supported platform"⟩,
   ⟨5, 3, "Glossary"⟩]

/-- What is known about the pages. -/
def demoContent : Content := Content.ofList (demoPages.map fun p => (p.nid, ⟨p.title, true⟩))

/-- Places pages. -/
def placeAll : List DemoPage → Managed Unit
  | [] => return ()
  | p :: rest => do
    if p.pid = 0 then
      let _ ← Manager.addRoot p.nid 0
    else
      let _ ← Manager.addChild p.nid p.pid 0
    placeAll rest

/-- The contents of the book, whose pages are placed first if its top page is not. -/
def demoBook : Managed (List ContentsLine) := do
  if (← Manager.link? 1).isNone then placeAll demoPages
  Manager.contents 1 maxDepth [] .everyone

end Outline.CommandLine
