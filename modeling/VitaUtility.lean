import VitaUtility.Lib.Chain
import VitaUtility.Lib.DirGraph
import VitaUtility.Lib.Bytes
import VitaUtility.Lib.ArrayFile
import VitaUtility.Lib.Memory
import VitaUtility.Lib.BigEndian
import VitaUtility.Lib.Cmac
import VitaUtility.Dmass.Types
import VitaUtility.Dmass.FsTool
import VitaUtility.Dmass.Vop
import VitaUtility.Dmass.VopData
import VitaUtility.Dmass.Call
import VitaUtility.Dmass.VopSpec
import VitaUtility.Dmass.DataSpec
import VitaUtility.Dmass.Capacity
import VitaUtility.Dmass.Vnodes
import VitaUtility.Dmass.Offsets
import VitaUtility.Dmass.Tree
import VitaUtility.Dmass.Dirs
import VitaUtility.Dmass.Refs
import VitaUtility.Dmass.Ledger
import VitaUtility.Dmass.Paths
import VitaUtility.Dmass.Namespace
import VitaUtility.Dmass.Rename
import VitaUtility.Dmass.Creation
import VitaUtility.Dmass.ByteFile
import VitaUtility.Dmass.Lookup
import VitaUtility.Dmass.Mount
import VitaUtility.Dmass.Listing
import VitaUtility.Dmass.Append
import VitaUtility.Dmass.Removal
import VitaUtility.Dmass.Resize
import VitaUtility.Dmass.Copies
import VitaUtility.Dmass.ReadPaths
import VitaUtility.Dmass.Seek
import VitaUtility.Dmass.Attributes
import VitaUtility.Dmass.Handles
import VitaUtility.Dmass.Process
import VitaUtility.Lib.PathFs
import VitaUtility.Dmass.Content
import VitaUtility.Dmass.Represents
import VitaUtility.Dmass.Entries
import VitaUtility.Dmass.FileSys
import VitaUtility.Dmass.Browse
import VitaUtility.ActVerifier.Aes256Cmac
import VitaUtility.ActVerifier.Swap
import VitaUtility.ActVerifier.Main
import VitaUtility.ActivateReset
import VitaUtility.Dumper.Copy
import VitaUtility.Dumper.Dump
import VitaUtility.Dumper.Contents
import VitaUtility.Dumper.Slb2
import VitaUtility.Lib.Put
import VitaUtility.Dumper.Drive
import VitaUtility.Dumper.Slb2Run
import VitaUtility.Lib.Mask
import VitaUtility.Lib.ShortDescriptor
import VitaUtility.TtbrParser.Mmu
import VitaUtility.TtbrParser.Listing
import VitaUtility.TtbrParser.Coverage
import VitaUtility.TtbrParser.ModuleWalk
import VitaUtility.TtbrParser.ModuleList
import VitaUtility.ModuleLoader.Params
import VitaUtility.ModuleLoader.Decimal
import VitaUtility.ModuleLoader.Console
import VitaUtility.ModuleLoader.Scan
import VitaUtility.ModuleLoader.Program
import VitaUtility.Analysis.Log
import VitaUtility.Analysis.WChar
import VitaUtility.Lib.Emit
import VitaUtility.NpdrmPackage
import VitaUtility.IdstorageVerifier
import VitaUtility.ZlibSample
import VitaUtility.Lib.DoublyLinked
import VitaUtility.VfsMountOld.Items
import VitaUtility.VfsMountOld.Lookup
import VitaUtility.VfsMountOld.CreateRun
import VitaUtility.VfsMountOld.Transfer
import VitaUtility.VfsMountOld.Segments
import VitaUtility.VfsMountOld.Window
import VitaUtility.VfsMountOld.Cache
import VitaUtility.VfsMountOld.Memcpy
import VitaUtility.VfsMountOld.L2Sweep
import VitaUtility.VfsMountOld.RootListing
import VitaUtility.VfsMountOld.Refresh
import VitaUtility.PackageFile
import VitaUtility.VfsMountOld.Handles
import VitaUtility.VfsMountOld.Isolation
