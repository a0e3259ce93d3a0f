import MakePlus.Basic
import MakePlus.Pathstuff
import MakePlus.Vpath.Basic
import MakePlus.Vpath.Construct
import MakePlus.Vpath.Grammar
import MakePlus.Vpath.Search
import MakePlus.Vpath.Resolve
import MakePlus.Commands.Variables
import MakePlus.Commands.Bounds
import MakePlus.Commands.Target
import MakePlus.Commands.Chop
import MakePlus.Commands.Dedup
import MakePlus.Commands.Lists
import MakePlus.Pathstuff.RoundTrip
import MakePlus.Default
import MakePlus.Commands.Segments
import MakePlus.Vpath.Maxelem
import MakePlus.Pathstuff.Buffers
import MakePlus.Default.Recipes
import MakePlus.Default.Suffixes
import MakePlus.Commands.Delete
import MakePlus.Vpath.Print
import MakePlus.Default.ConfigFile
import MakePlus.Commands.Execute
