import Tablature.CommandLine
import Tablature.Files.Store
import Tablature.Main
import Tablature.Proofs.InPlace
import Tablature.Proofs.Step
import Tablature.Proofs.Growth
import Tablature.Proofs.Coherence
import Tablature.Proofs.Sections
import Tablature.Proofs.Accounting
import Tablature.Proofs.Brackets
import Tablature.Proofs.Slurs
import Tablature.Proofs.Unmatched
import Tablature.Proofs.Measure
import Tablature.Proofs.Stacking
import Tablature.Proofs.WellFormed
import Tablature.Proofs.Residue
import Tablature.Proofs.Refused
import Tablature.Proofs.Abreast
import Tablature.Proofs.PostScript.Machine
import Tablature.Proofs.PostScript.Items
import Tablature.Proofs.PostScript.Decode
import Tablature.Proofs.PostScript.Lexical
import Tablature.Proofs.Mirror
import Tablature.Proofs.Drawing
import Tablature.Proofs.Paging
import Tablature.Proofs.Faces
import Tablature.Proofs.Geometry
import Tablature.Proofs.Justified
import Tablature.Proofs.Beginning
import Tablature.Proofs.Labels
import Tablature.Proofs.PostScript.StringLiteral
import Tablature.Proofs.Incremental
import Tablature.Proofs.Music
import Tablature.Proofs.CommandLine
import Tablature.Proofs.Stretch
import Tablature.Proofs.Edges
import Tablature.Proofs.NoteLines
import Tablature.Proofs.Boxes
import Tablature.Proofs.CanonicalNumeral
import Tablature.Proofs.FretSigns
import Tablature.Proofs.Settings
import Tablature.Proofs.Composer
import Tablature.Proofs.Ink
import Tablature.Proofs.ChordLetters
import Tablature.Proofs.DefaultOutput
import Tablature.Proofs.ValidLayout
import Tablature.Proofs.Translation
import Tablature.Proofs.CoveredLines
import Tablature.Proofs.PostScript.Fonts
import Tablature.Proofs.LineEnds
import Tablature.Proofs.JustifiedOnce
import Tablature.Proofs.Capacity
import Tablature.Proofs.CourseLines
